import CheckedMemo.Proofs.Unconfined
import CheckedMemo.Script.Caches
import CheckedMemo.Script.Data
import CheckedMemo.Script.Queries

/-!
# Terms without confined objects

A term is unconfined if the programs that it stands for are, and do not depend on the description of
a fault (`Script.Term.Unconfined`).  The forms of terms keep this up: one lemma for each form says
so.  The forms that are left out are those that make or use an object with a part for every thread,
and the one that refers to a fault that was caught.
-/

namespace CheckedMemo

variable {known known' : Set Nat}

namespace Script

/-- Whether the key and the arguments in a scope refer to known addresses only. -/
structure Scope.Within (known : Set Nat) (sc : Scope) : Prop where
  key : sc.key.Within known
  args : sc.args.Within known
  named : ∀ e ∈ sc.named, e.2.Within known

theorem Scope.Within.mono {sc : Scope} (h : sc.Within known) (hsub : known ⊆ known') :
    sc.Within known' :=
  ⟨h.key.mono hsub, h.args.mono hsub, fun e he => (h.named e he).mono hsub⟩

/-- Whether a term stands for unconfined programs, which do not depend on the description of the
fault that was caught. -/
structure Term.Unconfined (t : Term) : Prop where
  unread (sc : Scope) (caught : Value) : t { sc with caught } = t sc
  program {known : Set Nat} {sc : Scope} (h : sc.Within known) : (t sc).Unconfined known

/-- A command on memory that refers to known addresses only is unconfined. -/
theorem unconfined_memory {c : Memory.Command} (hc : c.Within known) :
    (memory c).Unconfined known := .perform hc

variable {t u v : Term} {sc : Scope}

/-! ### Lists of terms -/

theorem evalAll_unread {ts : List Term} (hts : ∀ t ∈ ts, t.Unconfined) (caught : Value)
    (next : List Value → Program) :
    evalAll ts { sc with caught } next = evalAll ts sc next := by
  induction ts generalizing next with
  | nil => rfl
  | cons t ts ih =>
    obtain ⟨ht, hts⟩ := List.forall_mem_cons.mp hts
    rw [evalAll, evalAll, ht.unread]
    exact congrArg _ (funext fun v => ih hts _)

theorem unconfined_evalAll {ts : List Term} (hts : ∀ t ∈ ts, t.Unconfined) (hsc : sc.Within known)
    {next : List Value → Program}
    (hnext : ∀ known', known ⊆ known' → ∀ vs, (∀ v ∈ vs, v.Within known') →
      (next vs).Unconfined known') : (evalAll ts sc next).Unconfined known := by
  induction ts generalizing known next with
  | nil => exact hnext known subset_rfl [] fun _ h => nomatch h
  | cons t ts ih =>
    obtain ⟨ht, hts⟩ := List.forall_mem_cons.mp hts
    refine .bind (ht.program hsc) fun known₁ hsub v hv => ih hts (hsc.mono hsub) ?_
    exact fun known₂ hsub' vs hvs => hnext known₂ (hsub.trans hsub') (v :: vs)
      (List.forall_mem_cons.mpr ⟨hv.mono hsub', hvs⟩)

theorem evalNamed_unread {es : List (String × Term)} (hes : ∀ e ∈ es, e.2.Unconfined)
    (caught : Value) (next : List (String × Value) → Program) :
    evalNamed es { sc with caught } next = evalNamed es sc next := by
  induction es generalizing next with
  | nil => rfl
  | cons e es ih =>
    obtain ⟨name, t⟩ := e
    obtain ⟨ht, hes⟩ := List.forall_mem_cons.mp hes
    rw [evalNamed, evalNamed, show t { sc with caught } = t sc from ht.unread sc caught]
    exact congrArg _ (funext fun v => ih hes _)

theorem unconfined_evalNamed {es : List (String × Term)} (hes : ∀ e ∈ es, e.2.Unconfined)
    (hsc : sc.Within known) {next : List (String × Value) → Program}
    (hnext : ∀ known', known ⊆ known' → ∀ vs, (∀ e ∈ vs, e.2.Within known') →
      (next vs).Unconfined known') : (evalNamed es sc next).Unconfined known := by
  induction es generalizing known next with
  | nil => exact hnext known subset_rfl [] fun _ h => nomatch h
  | cons e es ih =>
    obtain ⟨name, t⟩ := e
    obtain ⟨ht, hes⟩ := List.forall_mem_cons.mp hes
    refine .bind (ht.program hsc) fun known₁ hsub v hv => ih hes (hsc.mono hsub) ?_
    exact fun known₂ hsub' vs hvs => hnext known₂ (hsub.trans hsub') ((name, v) :: vs)
      (List.forall_mem_cons.mpr ⟨hv.mono hsub', hvs⟩)

theorem evalCall_unread {ts : List Term} {es : List (String × Term)} (ht : t.Unconfined)
    (hts : ∀ t ∈ ts, t.Unconfined) (hes : ∀ e ∈ es, e.2.Unconfined) (caught : Value)
    (next : Call → Program) :
    evalCall t ts es { sc with caught } next = evalCall t ts es sc next := by
  rw [evalCall, evalCall, ht.unread]
  refine congrArg _ (funext fun key => ?_)
  rw [evalAll_unread hts]
  exact congrArg _ (funext fun positional => evalNamed_unread hes caught _)

theorem unconfined_evalCall {ts : List Term} {es : List (String × Term)} (ht : t.Unconfined)
    (hts : ∀ t ∈ ts, t.Unconfined) (hes : ∀ e ∈ es, e.2.Unconfined) (hsc : sc.Within known)
    {next : Call → Program}
    (hnext : ∀ known call, call.Within known → (next call).Unconfined known) :
    (evalCall t ts es sc next).Unconfined known := by
  refine .bind (ht.program hsc) fun known₁ hsub key hkey =>
    unconfined_evalAll hts (hsc.mono hsub) fun known₂ hsub' positional hpositional =>
      unconfined_evalNamed hes (hsc.mono (hsub.trans hsub')) fun known₃ hsub'' named hnamed => ?_
  exact hnext known₃ _ ⟨hkey.mono (hsub'.trans hsub''),
    fun v hv => (hpositional v hv).mono hsub'', hnamed⟩

/-- The body of a computation starts with a scope of its own. -/
theorem unconfined_computing (ht : t.Unconfined) {key : Value} (hkey : key.Within known) :
    (computing t key).Unconfined known :=
  ht.program ⟨hkey, trivial, fun _ h => nomatch h⟩

/-- So does the body of stored code. -/
theorem unconfined_body (ht : t.Unconfined) {call : Call} (hcall : call.Within known) :
    (body t call).Unconfined known :=
  .bind (unconfined_memory hcall.positional) fun _ hsub _ hargs =>
    ht.program ⟨hcall.key.mono hsub, hargs, fun e he => (hcall.named e he).mono hsub⟩

namespace Term.Unconfined

/-- A term that needs no scope. -/
theorem of_const {p : Program} (hp : ∀ known, p.Unconfined known) :
    Term.Unconfined fun _ => p := ⟨fun _ _ => rfl, fun {known} _ _ => hp known⟩

/-- A term that goes on with the value of another one. -/
theorem bind (ht : t.Unconfined) {next : Scope → Value → Program}
    (hunread : ∀ sc caught, next { sc with caught } = next sc)
    (hnext : ∀ known sc, sc.Within known → ∀ v, v.Within known → (next sc v).Unconfined known) :
    Term.Unconfined fun sc => .bind (t sc) (next sc) where
  unread sc caught := by
    rw [ht.unread, hunread]
  program hsc := .bind (ht.program hsc) fun known' hsub v hv => hnext known' _ (hsc.mono hsub) v hv

/-! ### Data -/

theorem literal {w : Value} (hw : w.Within ∅) : (Script.literal w).Unconfined :=
  of_const fun known => .done (hw.mono (Set.empty_subset known))

theorem integer (text : String) : (Script.integer text).Unconfined := by
  unfold Script.integer
  refine of_const fun known => ?_
  split
  · exact .done trivial
  · exact .fail (Fault.within_of_none rfl)
  · exact .fail (Fault.within_of_none rfl)

theorem real (text : String) : (Script.real text).Unconfined := by
  unfold Script.real
  refine of_const fun known => ?_
  split
  · exact .done trivial
  · exact unconfined_memory trivial
  · exact .fail (Fault.within_of_none rfl)

theorem bytes (text : String) : (Script.bytes text).Unconfined := by
  unfold Script.bytes
  refine of_const fun known => ?_
  split
  · exact .done trivial
  · exact .fail (Fault.within_of_none rfl)

theorem repeated (s : String) (n : Nat) : (Script.repeated s n).Unconfined := literal trivial

theorem tuple {ts : List Term} (hts : ∀ t ∈ ts, t.Unconfined) : (Script.tuple ts).Unconfined where
  unread _ caught := evalAll_unread hts caught _
  program hsc := unconfined_evalAll hts hsc fun _ _ _ hvs => unconfined_memory hvs

theorem list {ts : List Term} (hts : ∀ t ∈ ts, t.Unconfined) : (Script.list ts).Unconfined where
  unread _ caught := evalAll_unread hts caught _
  program hsc := unconfined_evalAll hts hsc fun _ _ _ hvs => unconfined_memory hvs

theorem key : Script.key.Unconfined := ⟨fun _ _ => rfl, fun h => .done h.key⟩

theorem args : Script.args.Unconfined := ⟨fun _ _ => rfl, fun h => .done h.args⟩

theorem binary {command : Value → Value → Memory.Command}
    (hcommand : ∀ known v w, v.Within known → w.Within known → (command v w).Within known)
    (ht : t.Unconfined) (hu : u.Unconfined) : (Script.binary command t u).Unconfined := by
  refine ht.bind (fun sc caught => ?_) fun known sc hsc v hv => ?_
  · rw [hu.unread]
  · exact .bind (hu.program hsc) fun known' hsub w hw =>
      unconfined_memory (hcommand known' v w (hv.mono hsub) hw)

theorem same (ht : t.Unconfined) (hu : u.Unconfined) : (Script.same t u).Unconfined :=
  binary (fun _ _ _ hv hw => ⟨hv, hw⟩) ht hu

theorem equal (ht : t.Unconfined) (hu : u.Unconfined) : (Script.equal t u).Unconfined :=
  binary (fun _ _ _ hv hw => ⟨hv, hw⟩) ht hu

theorem item (ht : t.Unconfined) (hu : u.Unconfined) : (Script.item t u).Unconfined :=
  binary (fun _ _ _ hv hw => ⟨hv, hw⟩) ht hu

theorem append (ht : t.Unconfined) (hu : u.Unconfined) : (Script.append t u).Unconfined :=
  binary (fun _ _ _ hv hw => ⟨hv, hw⟩) ht hu

theorem put (ht : t.Unconfined) (hu : u.Unconfined) (hv : v.Unconfined) :
    (Script.put t u v).Unconfined := by
  refine ht.bind (fun sc caught => ?_) fun known sc hsc c hc => ?_
  · rw [hu.unread, hv.unread]
  · exact .bind (hu.program hsc) fun _ hsub i hi =>
      .bind (hv.program (hsc.mono hsub)) fun _ hsub' w hw => unconfined_memory
        ⟨hc.mono (hsub.trans hsub'), hi.mono hsub', hw⟩

theorem arithmetic {operation : Int → Int → Value}
    (hoperation : ∀ a b, (operation a b).Within ∅) (ht : t.Unconfined) (hu : u.Unconfined) :
    (Script.arithmetic operation t u).Unconfined := by
  refine ht.bind (fun sc caught => ?_) fun known sc hsc v _ => ?_
  · rw [hu.unread]
  · refine .bind (hu.program hsc) fun known' _ w _ => ?_
    split
    · exact .done ((hoperation _ _).mono (Set.empty_subset known'))
    · exact .fail (Fault.within_of_none rfl)

theorem lookup (name : String) : (Script.lookup name).Unconfined :=
  of_const fun _ => unconfined_memory trivial

theorem assign (name : String) (ht : t.Unconfined) : (Script.assign name t).Unconfined :=
  ht.bind (fun _ _ => rfl) fun _ _ _ _ hv => unconfined_memory hv

theorem named : Script.named.Unconfined where
  unread _ _ := rfl
  program h := unconfined_memory fun e he => by
    obtain ⟨entry, hentry, rfl⟩ := List.mem_map.mp he
    exact ⟨trivial, h.named entry hentry⟩

theorem unconfined_nestValue (n : Nat) {w : Value} (hw : w.Within known) :
    (nestValue n w).Unconfined known := by
  induction n generalizing known w with
  | zero => exact .done hw
  | succ n ih =>
    exact .bind (unconfined_memory (List.forall_mem_singleton.mpr hw)) fun _ _ _ hv => ih hv

theorem nested (n : Nat) (ht : t.Unconfined) : (Script.nested n t).Unconfined :=
  ht.bind (fun _ _ => rfl) fun _ _ _ _ hv => unconfined_nestValue n hv

theorem unconfined_fill {entries : List (Term × Term)}
    (h : ∀ e ∈ entries, e.1.Unconfined ∧ e.2.Unconfined) {d : Value} (hd : d.Within known)
    (hsc : sc.Within known) : (fill d entries sc).Unconfined known := by
  induction entries generalizing known with
  | nil => exact .done hd
  | cons e rest ih =>
    obtain ⟨he, hrest⟩ := List.forall_mem_cons.mp h
    refine .bind (he.1.program hsc) fun _ hsub k hk =>
      .bind (he.2.program (hsc.mono hsub)) fun _ hsub' v hv =>
        .bind (unconfined_memory ⟨hd.mono (hsub.trans hsub'), hk.mono hsub', hv⟩)
          fun _ hsub'' _ _ => ?_
    have hall := hsub.trans (hsub'.trans hsub'')
    exact ih hrest (hd.mono hall) (hsc.mono hall)

theorem fill_unread {entries : List (Term × Term)}
    (h : ∀ e ∈ entries, e.1.Unconfined ∧ e.2.Unconfined) (d caught : Value) :
    fill d entries { sc with caught } = fill d entries sc := by
  induction entries with
  | nil => rfl
  | cons e rest ih =>
    obtain ⟨he, hrest⟩ := List.forall_mem_cons.mp h
    rw [fill, fill, he.1.unread, he.2.unread, ih hrest]

theorem dict {entries : List (Term × Term)}
    (h : ∀ e ∈ entries, e.1.Unconfined ∧ e.2.Unconfined) : (Script.dict entries).Unconfined where
  unread _ caught := congrArg (Program.bind _) (funext fun d => fill_unread h d caught)
  program hsc := .bind (unconfined_memory fun _ he => nomatch he) fun _ hsub _ hd =>
    unconfined_fill h hd (hsc.mono hsub)

theorem object (ht : t.Unconfined) {copier : Option Term}
    (hcopier : ∀ u, copier = some u → u.Unconfined) :
    (Script.object t copier).Unconfined := by
  refine ht.bind (fun _ _ => rfl) fun known sc hsc v hv => ?_
  cases copier with
  | none => exact unconfined_memory hv
  | some u =>
    exact .store (fun _ _ _ hcall => unconfined_body (hcopier u rfl) hcall) fun code =>
      unconfined_memory hv

/-! ### Control -/

theorem sequence {ts : List Term} (hts : ∀ t ∈ ts, t.Unconfined) :
    (Script.sequence ts).Unconfined := by
  induction ts with
  | nil => exact of_const fun _ => .done trivial
  | cons t rest ih =>
    obtain ⟨ht, hrest⟩ := List.forall_mem_cons.mp hts
    cases rest with
    | nil => exact ht
    | cons u rest =>
      exact ht.bind (fun sc caught => by rw [(ih hrest).unread]) fun _ _ hsc _ _ =>
        (ih hrest).program hsc

theorem choose (ht : t.Unconfined) (hu : u.Unconfined) (hv : v.Unconfined) :
    (Script.choose t u v).Unconfined := by
  refine ht.bind (fun sc caught => ?_) fun known sc hsc w _ => ?_
  · rw [hu.unread, hv.unread]
  · split
    · exact hu.program hsc
    · exact hv.program hsc

theorem loop (name : String) (low : Int) (count : Nat) (ht : t.Unconfined) :
    (Script.loop name low count t).Unconfined := by
  induction count generalizing low with
  | zero => exact of_const fun _ => .done trivial
  | succ count ih =>
    refine ⟨fun sc caught => ?_, fun hsc => ?_⟩
    · rw [Script.loop, Script.loop, ht.unread, (ih _).unread]
    · exact .bind (unconfined_memory trivial) fun _ hsub _ _ =>
        .bind (ht.program (hsc.mono hsub)) fun _ hsub' _ _ =>
          (ih _).program (hsc.mono (hsub.trans hsub'))

theorem mark (ht : t.Unconfined) : (Script.mark t).Unconfined :=
  ht.bind (fun _ _ => rfl) fun _ _ _ _ hv => .perform hv

theorem on (thread : Thread) (ht : t.Unconfined) : (Script.on thread t).Unconfined :=
  ⟨fun sc caught => congrArg (Program.on thread) (ht.unread sc caught),
    fun hsc => .on (ht.program hsc)⟩

theorem timed (label : String) (enabled : Option Bool) (ht : t.Unconfined) :
    (Script.timed label enabled t).Unconfined :=
  ⟨fun sc caught => congrArg (Program.timed label enabled) (ht.unread sc caught),
    fun hsc => .timed (ht.program hsc)⟩

theorem define (name : String) (ht : t.Unconfined) : (Script.define name t).Unconfined :=
  of_const fun _ => .store (fun _ _ _ hcall => unconfined_body ht hcall) fun _ =>
    .perform fun _ _ h => nomatch h

theorem call (name : String) (ht : t.Unconfined) : (Script.call name t).Unconfined :=
  ht.bind (fun _ _ => rfl) fun _ _ _ _ hkey => .locate fun _ =>
    .invoke ⟨hkey, fun _ h => (nomatch h), fun _ h => nomatch h⟩

theorem raise (kind : Kind) (message : Option String) : (Script.raise kind message).Unconfined := by
  refine of_const fun known => .fail fun key hkey => ?_
  -- a failure that a program makes up without a key reports none
  have hnull : (failure kind message).key = .null := by
    unfold failure
    split
    · rfl
    · split <;> rfl
  unfold Fault.key? at hkey
  dsimp only at hkey
  split at hkey
  · cases hkey
    rw [hnull]
    trivial
  · cases hkey

theorem raiseUsage (kind : Kind) (message : String) (ht : t.Unconfined)
    (operation : Option String) : (Script.raiseUsage kind message t operation).Unconfined := by
  refine ht.bind (fun _ _ => rfl) fun known sc _ v hv => .fail fun key hkey => ?_
  unfold Fault.key? at hkey
  dsimp only at hkey
  split at hkey
  · cases hkey
    exact hv
  · cases hkey

/-- A handler that does not refer to the fault discards it. -/
theorem attempt {kinds : List Kind}
    (hkinds : kinds.any Kind.reentrant.isA = true → kinds.any Kind.borrow.isA = true)
    (ht : t.Unconfined) (hu : u.Unconfined) : (Script.attempt kinds t u).Unconfined := by
  have hhandler (sc : Scope) : (fun f : Fault => if f.isDescribable then
      .bind (memory (.newDict (describe f))) fun caught => u { sc with caught }
      else .fail indescribable) = fun f => Program.describing f (u sc) :=
    funext fun f => by simp only [hu.unread, Program.describing]
  refine ⟨fun sc caught => ?_, fun {known sc} hsc => ?_⟩
  · rw [Script.attempt, Script.attempt, ht.unread]
  · rw [Script.attempt, hhandler sc]
    exact .attempt (ht.program hsc) hkinds .described (hu.program hsc)

/-! ### Cells and caches -/

variable {name : String}

theorem create {c : Creation} (hc : c.Unconfined ∅) : (Script.create c).Unconfined :=
  of_const fun known =>
    .perform (Command.Unconfined.mono (Set.empty_subset known) (c := .create c) hc)

theorem createCell (name : String) (ht : t.Unconfined) (label : Option String) :
    (Script.createCell name t label).Unconfined :=
  ht.bind (fun _ _ => rfl) fun _ _ _ _ hv => .perform hv

theorem atKey (ht : t.Unconfined) {next : Place → Value → Program}
    (hnext : ∀ known place key, key.Within known → (next place key).Unconfined known) :
    (Script.atKey (.named name) t next).Unconfined where
  unread sc caught := by rw [Script.atKey, Script.atKey, ht.unread]
  program hsc := .reach fun place => .bind (ht.program hsc) fun known' _ key hkey =>
    hnext known' place key hkey

theorem inspect {i : Place → Inspection} (hi : ∀ place, (i place).Within ∅) :
    (Script.inspect i (.named name)).Unconfined :=
  of_const fun known => .reach fun place => .perform <|
    Command.Unconfined.mono (Set.empty_subset known) (c := .inspect (i place)) (hi place)

theorem inspectKey {i : Place → Value → Inspection}
    (hi : ∀ known place key, key.Within known → (i place key).Within known) (ht : t.Unconfined) :
    (Script.inspectKey i (.named name) t).Unconfined :=
  atKey ht fun known place key hkey => .perform (hi known place key hkey)

theorem contains (ht : t.Unconfined) : (Script.contains t (.named name)).Unconfined :=
  ht.bind (fun _ _ => rfl) fun _ _ _ _ hkey => .reach fun _ => .perform hkey

theorem get (ht : t.Unconfined) (hu : u.Unconfined) : (Script.get (.named name) t u).Unconfined :=
  atKey ht fun _ _ _ hkey => .get hkey (unconfined_computing hu hkey)

theorem peek (ht : t.Unconfined) : (Script.peek (.named name) t).Unconfined :=
  atKey ht fun _ _ _ hkey => .peek hkey

theorem populate (ht : t.Unconfined) (hu : u.Unconfined) :
    (Script.populate (.named name) t u).Unconfined :=
  atKey ht fun _ _ _ hkey => .bind (.get hkey (unconfined_computing hu hkey)) fun _ _ _ _ =>
    .done trivial

theorem within (mode : Mode) (ht : t.Unconfined) (hu : u.Unconfined) :
    (Script.within (.named name) mode t u).Unconfined where
  unread sc caught := by
    have hbody (content : Value) :
        u { sc with caught, key := content } = u { sc with key := content } :=
      hu.unread { sc with key := content } caught
    rw [Script.within, Script.within, Script.atKey, Script.atKey, ht.unread]
    simp only [hbody]
  program hsc := .reach fun _ => .bind (ht.program hsc) fun _ hsub _ hkey =>
    .view hkey fun _ hsub' content hcontent => hu.program
      ⟨hcontent, (hsc.mono (hsub.trans hsub')).args, (hsc.mono (hsub.trans hsub')).named⟩

theorem openView (view : String) (mode : Mode) (ht : t.Unconfined) :
    (Script.openView view (.named name) mode t).Unconfined where
  unread sc caught := by
    rw [Script.openView, Script.openView, Script.atKey, Script.atKey, ht.unread]
  program hsc := by
    have hopen : (Script.atKey (.named name) t
        fun place key => .perform (.view (.openAs view place mode key))).Unconfined :=
      atKey ht fun _ _ _ hkey => .perform hkey
    refine .bind (.perform trivial) fun _ hsub v _ => ?_
    split
    · exact .done trivial
    · exact hopen.program (hsc.mono hsub)

theorem closeView (view : String) {failure : Option Thrown}
    (hfailure : ∀ f, failure = some f → (Fault.thrown f).Within ∅) :
    (Script.closeView view failure).Unconfined :=
  of_const fun known => .perform fun f hf => (hfailure f hf).mono (Set.empty_subset known)

/-! ### Providers and settings -/

theorem table {c : TableCommand} (hc : ∀ override providers, c ≠ .install override providers) :
    (Script.table c).Unconfined := of_const fun _ => .perform hc

theorem provide (providers query : String) (ht : t.Unconfined) :
    (Script.provide providers query t).Unconfined :=
  of_const fun _ => .store (fun _ _ _ hcall => unconfined_body ht hcall) fun _ =>
    .perform fun _ _ h => nomatch h

theorem query (providers query : String) {ts : List Term} {es : List (String × Term)}
    (ht : t.Unconfined) (hts : ∀ t ∈ ts, t.Unconfined) (hes : ∀ e ∈ es, e.2.Unconfined) :
    (Script.query providers query t ts es).Unconfined where
  unread _ caught := congrArg (Program.locate _) (funext fun _ =>
    evalCall_unread ht hts hes caught _)
  program hsc := .locate fun _ => unconfined_evalCall ht hts hes hsc fun _ _ hcall => .invoke hcall

theorem settings (c : SettingsCommand) : (Script.settings c).Unconfined :=
  of_const fun _ => .perform trivial

theorem log (event : Event) : (Script.log event).Unconfined := settings _

end Term.Unconfined

/-- The programs that terms stand for, each evaluated on its own. -/
def programs (ts : List Term) : List Program := ts.map fun t => t {}

theorem unconfined_programs {ts : List Term} (hts : ∀ t ∈ ts, t.Unconfined) :
    ∀ p ∈ programs ts, p.Unconfined ∅ := by
  intro p hp
  obtain ⟨t, ht, rfl⟩ := List.mem_map.mp hp
  exact (hts t ht).program ⟨trivial, trivial, fun _ h => nomatch h⟩

end Script

end CheckedMemo
