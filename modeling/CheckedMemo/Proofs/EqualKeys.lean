import CheckedMemo.Proofs.KeyText
import CheckedMemo.Proofs.Respelling

/-!
# Requests with equal keys

A request with one of two equal keys is answered as a request with the other: the same entry is
found or missed, the same marks and views are in the way, and the key can be shown or not in either
spelling.  So each part of a cache's answer respells its counterpart, and so do the programs that
make the requests (`Program.Echoes.get` and its like).
-/

namespace CheckedMemo

/-! ### Requests -/

/-- Whether two requests ask for the same key, however it is spelled. -/
structure Request.Respells (r r' : Request) : Prop where
  index : ∃ k, r.index = .ok k ∧ r'.index = .ok k
  spelled : Outcome.Respells Spelled.Respells r.spelled r'.spelled

namespace Request

variable {r r' : Request}

/-- Faults that show the key of either request respell each other. -/
theorem fault_respells (h : Outcome.Respells Spelled.Respells r.spelled r'.spelled)
    {cause : Spelled → Fault}
    (hcause : ∀ key key' : Spelled, key.Respells key' → (cause key).Respells (cause key')) :
    (r.fault cause).Respells (r'.fault cause) := by
  unfold fault
  generalize r.spelled = x at h ⊢
  generalize r'.spelled = y at h ⊢
  cases h with
  | ok h => exact hcause _ _ h
  | error h => exact h

theorem Respells.index_bind {α : Type} {R : α → α → Prop} {f g : Key → Except Fault α}
    (h : r.Respells r') (hfg : ∀ k, Outcome.Respells R (f k) (g k)) :
    Outcome.Respells R (r.index >>= f) (r'.index >>= g) := by
  obtain ⟨k, hk, hk'⟩ := h.index
  rw [hk, hk']
  exact hfg k

end Request

theorem Guard.allow_respells (g : Guard) (mode : Mode) {r r' : Request}
    (h : Outcome.Respells Spelled.Respells r.spelled r'.spelled) :
    Outcome.Respells Eq (g.allow mode r) (g.allow mode r') := by
  unfold allow
  cases g.obstacle? mode with
  | none => exact .ok rfl
  | some active =>
    exact .error (Request.fault_respells h fun _ _ => .conflict g.label mode active)

/-- Requests with equal keys respell each other. -/
theorem Session.request_respells (s t : Session) {key key' : Value}
    (hkey : key.KeyEqual key') : (s.request key).Respells (t.request key') := by
  obtain ⟨k, hk, hk'⟩ := Value.keyEqual_iff.mp hkey
  refine ⟨⟨k, Request.index_eq_ok_iff.mpr hk, Request.index_eq_ok_iff.mpr hk'⟩, ?_⟩
  -- whether a key can be shown is a matter of its symbols
  by_cases hshowable : k.isShowable = true
  · obtain ⟨shown, hshown⟩ := (s.spelled_isOk_iff hk).mpr hshowable
    obtain ⟨shown', hshown'⟩ := (t.spelled_isOk_iff hk').mpr hshowable
    have hvalue : shown.value = key := Request.value_of_spelled hshown
    have hvalue' : shown'.value = key' := Request.value_of_spelled hshown'
    rw [hshown, hshown']
    exact .ok (.equal (by rwa [hvalue, hvalue']))
  · rw [Bool.not_eq_true] at hshowable
    rw [spelled_eq_error hk hshowable, spelled_eq_error hk' hshowable]
    exact .error (.same _)

/-! ### Caches -/

/-- Whether two answers of a cache are the same but for how the key is spelled. -/
inductive Lookup.Respells {Cache : Type} : Lookup Cache → Lookup Cache → Prop where
  | hit (v : Value) (c : Cache) : Respells (.hit v c) (.hit v c)
  | miss {key key' : Spelled} (h : key.Respells key') (k : Key) (c : Cache) :
    Respells (.miss key k c) (.miss key' k c)

namespace StableCache

variable (c : StableCache) {r r' : Request}

theorem find_respells (h : r.Respells r') : Outcome.Respells Eq (c.find r) (c.find r') :=
  (c.guard.allow_respells .read h.spelled).bind_eq fun _ => h.index_bind fun _ => .ok rfl

theorem contains_respells (h : r.Respells r') :
    Outcome.Respells Eq (c.contains r) (c.contains r') :=
  (c.find_respells h).bind_eq fun _ => .ok rfl

theorem peek_respells (h : r.Respells r') : Outcome.Respells Eq (c.peek r) (c.peek r') := by
  refine (c.find_respells h).bind_eq fun o => ?_
  cases o with
  | some v => exact .ok rfl
  | none => exact .error (Request.fault_respells h.spelled fun _ _ => .absent c.label)

theorem retrieve_respells (hint : Option String) (h : r.Respells r') :
    Outcome.Respells Eq (c.retrieve hint r) (c.retrieve hint r') := by
  refine (c.contains_respells h).bind_eq fun b => ?_
  cases b with
  | true => exact c.peek_respells h
  | false => exact .error (Request.fault_respells h.spelled fun _ _ => .notPopulated c.label hint)

theorem reserve_respells (thread : Thread) (k : Key) (h : r.Respells r') :
    Outcome.Respells Eq (c.reserve thread r k) (c.reserve thread r' k) := by
  refine (c.guard.allow_respells .write h.spelled).bind_eq fun _ => ?_
  cases c.pending.get? k with
  | none => exact .ok rfl
  | some owner =>
    refine .error (Request.fault_respells h.spelled fun _ _ hkey => ?_)
    split
    · exact .reentrant c.label hkey
    · exact .busy c.label hkey

/-- A stable cache answers requests with equal keys alike. -/
theorem start_respells (thread : Thread) (h : r.Respells r') :
    Outcome.Respells Lookup.Respells (c.start thread r) (c.start thread r') := by
  refine (c.guard.allow_respells .read h.spelled).bind_eq fun _ => h.index_bind fun k => ?_
  cases c.slots.get? k with
  | some v => exact .ok (.hit v _)
  | none =>
    refine (c.reserve_respells thread k h).bind_eq fun c' => ?_
    exact h.spelled.bind fun _ _ hkey => .ok (.miss hkey k c')

/-- Computations of equal keys with outcomes that respell each other end alike. -/
theorem finish_respells {key key' : Spelled} (hkey : key.Respells key') (k : Key)
    {x y : Except Fault Value} (h : Outcome.Respells Eq x y) :
    (c.finish key' k y).cache = (c.finish key k x).cache ∧
      List.Forall₂ Fault.Respells (c.finish key k x).refusals (c.finish key' k y).refusals ∧
      Outcome.Respells Eq (c.finish key k x).outcome (c.finish key' k y).outcome := by
  have hallow : Outcome.Respells Eq (c.guard.allow .write key.request)
      (c.guard.allow .write key'.request) := c.guard.allow_respells .write (.ok hkey)
  unfold finish
  cases h with
  | ok heq =>
    subst heq
    generalize c.guard.allow .write key.request = a at hallow ⊢
    generalize c.guard.allow .write key'.request = a' at hallow ⊢
    cases hallow with
    | ok => exact ⟨rfl, .nil, .ok rfl⟩
    | error hf => exact ⟨rfl, .cons hf (.cons hf .nil), .error hf⟩
  | error hfg =>
    generalize c.guard.allow .write key.request = a at hallow ⊢
    generalize c.guard.allow .write key'.request = a' at hallow ⊢
    cases hallow with
    | ok => exact ⟨rfl, .nil, .error hfg⟩
    | error hf => exact ⟨rfl, .cons hf .nil, .error hf⟩

end StableCache

namespace ValueCache

variable (c : ValueCache) {r r' : Request}

/-- A value cache answers requests with equal keys alike. -/
theorem start_respells (h : r.Respells r') :
    Outcome.Respells Lookup.Respells (c.start r) (c.start r') := by
  refine (c.guard.allow_respells .write h.spelled).bind_eq fun _ => h.index_bind fun k => ?_
  cases c.slots.get? k with
  | some v => exact .ok (.hit v _)
  | none => exact h.spelled.bind fun _ _ hkey => .ok (.miss hkey k _)

theorem contains_respells (h : r.Respells r') :
    Outcome.Respells Eq (c.contains r) (c.contains r') :=
  (c.guard.allow_respells .read h.spelled).bind_eq fun _ => h.index_bind fun _ => .ok rfl

theorem openStored_respells (h : r.Respells r') :
    Outcome.Respells Eq (c.openStored r) (c.openStored r') := by
  refine (c.guard.allow_respells .read h.spelled).bind_eq fun _ => h.index_bind fun k => ?_
  cases c.slots.get? k with
  | some v => exact .ok rfl
  | none => exact .error (Request.fault_respells h.spelled fun _ _ => .absent c.label)

end ValueCache

/-! ### Frames -/

namespace Machine.Echoes

variable {base base' : List Frame} {s t : Session} {id : Nat}

/-- Outcomes that are alike are taken to frames that treat them alike. -/
theorem leave {frame frame' : Frame} {m n : Machine} (hm : m.stack = frame :: base)
    (hn : n.stack = frame' :: base') (h : m.Respells n)
    (give : ∀ v, Echoes base base' (resume v frame base m.session)
      (resume v frame' base' n.session))
    (raise : ∀ f g, f.Respells g → Echoes base base' (unwind f frame base m.session)
      (unwind g frame' base' n.session)) : Echoes base base' m.step n.step := by
  obtain ⟨control, stack, s⟩ := m
  obtain ⟨control', stack', t⟩ := n
  obtain rfl : stack = _ := hm
  obtain rfl : stack' = _ := hn
  cases h.control with
  | give v => exact give v
  | raise hfg => exact raise _ _ hfg

/-- A view of a resource is left. -/
theorem release {mode : Mode} (m n : Machine) (hm : m.stack = .release id mode :: base)
    (hn : n.stack = .release id mode :: base') (h : m.Respells n) :
    Echoes base base' m.step n.step := by
  have hreleased := Session.Respells.release h.session id mode
  exact leave hm hn h (fun v => here (.give v) hreleased) fun _ _ hfg =>
    here (.raise hfg) hreleased

/-- A stable cache ends computations of equal keys alike. -/
theorem finish {key key' : Spelled} (hkey : key.Respells key') (k : Key)
    {x y : Except Fault Value} (hxy : Outcome.Respells Eq x y) (hst : s.Respells t) :
    Echoes base base' (Machine.finish id key k x base s)
      (Machine.finish id key' k y base' t) := by
  unfold Machine.finish
  rw [hst.resources_eq]
  cases s.resources[id]? with
  | none => exact refuse (.same _) hst
  | some r =>
    cases r with
    | cell | value => exact refuse (.same _) hst
    | stable c =>
      obtain ⟨hcache, hrefusals, houtcome⟩ := c.finish_respells hkey k hxy
      have hsession := (hst.setResource id (.stable (c.finish key k x).cache)).foldl_report
        hrefusals
      dsimp only
      rw [hcache]
      generalize (c.finish key k x).outcome = o at houtcome ⊢
      generalize (c.finish key' k y).outcome = o' at houtcome ⊢
      cases houtcome with
      | ok heq =>
        subst heq
        exact here (.give _) hsession
      | error hfg => exact here (.raise hfg) hsession

/-- The outcome of a computation is taken to the stable cache that has started it. -/
theorem computing {key key' : Spelled} (hkey : key.Respells key') {k : Key} (m n : Machine)
    (hm : m.stack = .computing id key k :: base) (hn : n.stack = .computing id key' k :: base')
    (h : m.Respells n) : Echoes base base' m.step n.step :=
  leave hm hn h (fun _ => finish hkey k (.ok rfl) h.session) fun _ _ hfg =>
    finish hkey k (.error hfg) h.session

/-- A value cache stores the values of computations of equal keys alike. -/
theorem deposit (k : Key) (v : Value) (hst : s.Respells t) :
    Echoes base base' (Machine.deposit id k v base s) (Machine.deposit id k v base' t) := by
  unfold Machine.deposit
  rw [hst.resources_eq]
  cases s.resources[id]? with
  | none => exact refuse (.same _) hst
  | some r =>
    cases r with
    | cell | stable => exact refuse (.same _) hst
    | value c =>
      have hset := hst.setResource id (.value (c.deposit k v))
      exact Program.Echoes.refl (.copy v) _ _ hset _ _

/-- The outcome of a computation is taken to the value cache that has started it. -/
theorem storing {k : Key} (m n : Machine) (hm : m.stack = .storing id k :: base)
    (hn : n.stack = .storing id k :: base') (h : m.Respells n) :
    Echoes base base' m.step n.step :=
  leave hm hn h (fun v => deposit k v h.session) fun _ _ hfg => here (.raise hfg) h.session

end Machine.Echoes

/-! ### Programs -/

namespace Program.Echoes

open Machine (Echoes)

variable {place : Place} {key key' : Value} {compute compute' : Value → Program}

theorem getStable (hkey : key.KeyEqual key') (h : (compute key).Echoes (compute' key'))
    (s : Session) (id : Nat) (c : StableCache) :
    Machine.Echoes [] [] (Machine.getStable id c key compute [] s)
      (Machine.getStable id c key' compute' [] s) := by
  have hstart := c.start_respells s.thread (s.request_respells s hkey)
  unfold Machine.getStable
  generalize c.start s.thread (s.request key) = x at hstart ⊢
  generalize c.start s.thread (s.request key') = y at hstart ⊢
  cases hstart with
  | error hfg => exact .refuse hfg (.refl s)
  | ok hfound =>
    cases hfound with
    | hit v c' => exact .here (.give v) (.refl _)
    | miss hshown k c' =>
      have hlogged := (Session.Respells.refl (s.setStable id c')).log
        (Event.Respells.cacheMiss c'.label hshown)
      exact .under h hlogged (.computing hshown)

theorem getValue (hkey : key.KeyEqual key') (h : (compute key).Echoes (compute' key'))
    (s : Session) (id : Nat) (c : ValueCache) :
    Machine.Echoes [] [] (Machine.getValue id c key compute [] s)
      (Machine.getValue id c key' compute' [] s) := by
  have hstart := c.start_respells (s.request_respells s hkey)
  unfold Machine.getValue
  generalize c.start (s.request key) = x at hstart ⊢
  generalize c.start (s.request key') = y at hstart ⊢
  cases hstart with
  | error hfg => exact .refuse hfg (.refl s)
  | ok hfound =>
    cases hfound with
    | hit v c' =>
      exact .under (.refl (.copy v)) (.refl (s.setValue id c')) .release
    | miss hshown k c' =>
      have hlogged := (Session.Respells.refl (s.setValue id c')).log
        (Event.Respells.cacheMiss c'.label hshown)
      exact .frame (.under h hlogged .storing) (List.suffix_cons ..) (List.suffix_cons ..) .release

theorem get (hkey : key.KeyEqual key') (h : (compute key).Echoes (compute' key')) :
    (Program.get place key compute).Echoes (.get place key' compute') := by
  refine echoes_iff.mpr fun s => .eval ?_
  show Machine.Echoes _ _ (Machine.get place.id key compute [] s)
    (Machine.get place.id key' compute' [] s)
  unfold Machine.get
  cases s.resources[place.id]? with
  | none => exact .refuse (.same _) (.refl s)
  | some r =>
    cases r with
    | cell => exact .refuse (.same _) (.refl s)
    | stable c => exact getStable hkey h s place.id c
    | value c => exact getValue hkey h s place.id c

theorem populate (hkey : key.KeyEqual key') (h : (compute key).Echoes (compute' key')) :
    (Program.populate place key compute).Echoes (.populate place key' compute') := by
  refine echoes_iff.mpr fun s => .eval (.under (get hkey h) (.refl s) fun m₁ n₁ hm₁ hn₁ hr => ?_)
  -- the value is given up, and a fault goes on
  exact .leave hm₁ hn₁ hr (fun _ => Echoes.refl (.done .null) _ _ hr.session _ _) fun _ _ hfg =>
    .here (.raise hfg) hr.session

theorem peek (hkey : key.KeyEqual key') : (Program.peek place key).Echoes (.peek place key') := by
  refine echoes_iff.mpr fun s => .eval ?_
  have hrequest := s.request_respells s hkey
  show Machine.Echoes _ _ (Machine.peek place.id key [] s) (Machine.peek place.id key' [] s)
  unfold Machine.peek
  cases s.resources[place.id]? with
  | none => exact .refuse (.same _) (.refl s)
  | some r =>
    cases r with
    | cell => exact .refuse (.same _) (.refl s)
    | stable c => exact .reply (c.peek_respells hrequest) (.refl s)
    | value c =>
      have hopened := c.openStored_respells hrequest
      dsimp only
      generalize c.openStored (s.request key) = x at hopened ⊢
      generalize c.openStored (s.request key') = y at hopened ⊢
      cases hopened with
      | error hfg => exact .refuse hfg (.refl s)
      | ok heq =>
        subst heq
        exact .under (.refl _) (.refl _) .release

theorem contains (hkey : key.KeyEqual key') :
    (Program.contains place key).Echoes (.contains place key') := by
  refine echoes_iff.mpr fun s => .eval (.reply ?_ (.refl s))
  have hrequest := s.request_respells s hkey
  refine (Outcome.Respells.refl (s.resource place.id)).bind_eq fun r => ?_
  refine Outcome.Respells.bind_eq ?_ fun b => .ok rfl
  cases r with
  | cell => exact .refl _
  | stable c => exact c.contains_respells hrequest
  | value c => exact c.contains_respells hrequest

theorem retrieve (hkey : key.KeyEqual key') :
    (Program.retrieve place key).Echoes (.retrieve place key') := by
  refine echoes_iff.mpr fun s => .eval (.reply ?_ (.refl s))
  have hrequest := s.request_respells s hkey
  refine (Outcome.Respells.refl (s.resource place.id)).bind_eq fun r => ?_
  cases r with
  | cell | value => exact .refl _
  | stable c => exact c.retrieve_respells place.hint hrequest

/-- Programs that echo each other wherever a target is found echo each other if it is looked up
first. -/
theorem reach {next next' : Place → Program} (target : Target)
    (h : ∀ place, (next place).Echoes (next' place)) :
    (Program.reach target next).Echoes (.reach target next') := by
  refine echoes_iff.mpr fun s => .eval ?_
  rw [Machine.begin, Machine.begin]
  cases s.locate target with
  | error f => exact .refuse (.same f) (.refl s)
  | ok found => exact h found.1 _ _ (.refl found.2) [] []

end Program.Echoes

/-! ### Ways to ask -/

/-- The ways to ask a cache for a key. -/
inductive Inquiry where
  | get
  | populate
  | peek
  | contains
  | retrieve

/-- The program that asks for a key in some way; only the first two may call the computation. -/
def Inquiry.program (i : Inquiry) (key : Value) (compute : Value → Program) (place : Place) :
    Program :=
  match i with
  | .get => .get place key compute
  | .populate => .populate place key compute
  | .peek => .peek place key
  | .contains => .contains place key
  | .retrieve => .retrieve place key

/-- What asks for one of two equal keys, in any way, echoes what asks for the other. -/
theorem Inquiry.echoes {key key' : Value} {compute : Value → Program}
    (hkey : key.KeyEqual key') (h : (compute key).Echoes (compute key')) (i : Inquiry)
    (place : Place) : (i.program key compute place).Echoes (i.program key' compute place) := by
  cases i with
  | get => exact .get hkey h
  | populate => exact .populate hkey h
  | peek => exact .peek hkey
  | contains => exact .contains hkey
  | retrieve => exact .retrieve hkey

/-- What asks for two equal keys, in any way, does the same but for how the keys are spelled. -/
theorem Inquiry.alike {key key' : Value} {compute : Value → Program} (hkey : key.KeyEqual key')
    (h : (compute key).Alike (compute key')) (i : Inquiry) (place : Place) :
    (i.program key compute place).Alike (i.program key' compute place) :=
  ⟨i.echoes hkey h.1 place, i.echoes hkey.symm h.2 place⟩

theorem Program.Alike.reach {next next' : Place → Program} (target : Target)
    (h : ∀ place, (next place).Alike (next' place)) :
    (Program.reach target next).Alike (.reach target next') :=
  ⟨.reach target fun place => (h place).1, .reach target fun place => (h place).2⟩

end CheckedMemo
