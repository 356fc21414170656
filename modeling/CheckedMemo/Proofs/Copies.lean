import CheckedMemo.Proofs.Counters
import CheckedMemo.Proofs.Heap
import CheckedMemo.Proofs.Paths
import CheckedMemo.Proofs.StoredValues

/-!
# Copies from value caches

A value cache that answers for a key makes a copy of the stored value as its last step, whether it
has found the value or has just stored it (`Reachable.copying_of_ends`).  The copy of a list or
dictionary is new, so no change of what was given out reaches the stored container, and as long as
nothing else changes that, every answer has its contents.

The main statement is `copies_never_alias`.
-/

namespace CheckedMemo.Machine

variable {m m' n : Machine} {x : Task} {v w : Value} {y : Container} {base : List Frame}
  {mode : Mode} {p : Program} {c : ValueCache}

/-! ### Where the copy is made -/

/-- Whether a program asks a cache for the value of a key, by a request or a peek; a value cache
answers inside a view of that mode. -/
inductive Queries (x : Task) : Mode → Program → Prop where
  | get {place : Place} {key : Value} (hplace : place.id = x.cache) (hkey : key.key = .ok x.key)
    (compute : Value → Program) : Queries x .write (.get place key compute)
  | peek {place : Place} {key : Value} (hplace : place.id = x.cache)
    (hkey : key.key = .ok x.key) : Queries x .read (.peek place key)

theorem Queries.exists_demands {s : Session} (hp : Queries x mode p)
    (found : s.resources[x.cache]? = some (.value c)) : ∃ key, Demands s x.cache mode key p := by
  cases hp with
  | get hplace _ compute => exact ⟨_, .hold hplace found _ compute⟩
  | peek hplace => exact ⟨_, .peek hplace found rfl _⟩

/-- The stored value of a key is about to be copied inside a view of the cache, and the copy given
to the frames `base`. -/
structure Copying (x : Task) (base : List Frame) (v : Value) (n : Machine) : Prop where
  control : n.control = .eval (.copy v)
  stack : ∃ mode, n.stack = .release x.cache mode :: base
  stored : n.session.shared.stored x = some v

theorem stored_of_set {r : Resource} (found : m.session.resources[x.cache]? = some (.value c))
    (shared : m'.session.shared = m.session.shared.set x.cache r) :
    m'.session.shared.stored x = r.slots.get? x.key := by
  rw [shared]
  exact Shared.stored_set_own (c := m.session.shared) found r

/-- A value cache that has the value of a key copies it at once, if no view is in its way. -/
theorem copying_of_stored (control : m.control = .eval p) (hp : Queries x mode p)
    (found : m.session.resources[x.cache]? = some (.value c))
    (free : c.guard.obstacle? mode = none) (hv : c.slots.get? x.key = some v) :
    Copying x m.stack v m.step ∧ m.step.session.memory = m.session.memory := by
  have hstep : m.step = begin p m.stack m.session := by
    rw [step, control]
  cases hp with
  | @get place key hplace hkey compute =>
    have found' : m.session.resources[place.id]? = some (.value c) := hplace ▸ found
    have hfree : c.guard.isBorrowed = false := Guard.not_isBorrowed_of_free free
    have hmemory : m.step.session.memory = m.session.memory := by
      rw [hstep]
      exact memory_get ..
    rcases step_getValue_cases control found' with
      ⟨hborrowed | ⟨u, hu⟩ | ⟨k, hk, hnone, -⟩, -⟩ | ⟨k, u, hk, -, hu, hcopy, hstack, hshared⟩ |
      ⟨k, hk, -, hnone, -⟩
    · cases hborrowed.symm.trans hfree
    · cases hu.symm.trans hkey
    · obtain rfl : x.key = k := Except.ok.inj (hkey.symm.trans hk)
      cases hv.symm.trans hnone
    · obtain rfl : x.key = k := Except.ok.inj (hkey.symm.trans hk)
      obtain rfl : v = u := Option.some.inj (hv.symm.trans hu)
      rw [hplace] at hstack hshared
      exact ⟨⟨hcopy, ⟨.write, hstack⟩, (stored_of_set found hshared).trans hv⟩, hmemory⟩
    · obtain rfl : x.key = k := Except.ok.inj (hkey.symm.trans hk)
      cases hv.symm.trans hnone
  | @peek place key hplace hkey =>
    have hopened : c.openStored (m.session.request key) = .ok (v, c.acquire .read) :=
      ValueCache.openStored_eq_ok_iff.mpr
        ⟨free, ⟨x.key, Request.index_eq_ok_iff.mpr hkey, hv⟩, rfl⟩
    have hpeek : m.step = ⟨.eval (.copy v), .release x.cache .read :: m.stack,
        m.session.setValue x.cache (c.acquire .read)⟩ := by
      rw [hstep]
      show Machine.peek place.id key m.stack m.session = _
      rw [Machine.peek, hplace, found]
      dsimp only
      rw [hopened]
    refine ⟨⟨by rw [hpeek], ⟨.read, by rw [hpeek]⟩, ?_⟩, by rw [hpeek]; rfl⟩
    refine (stored_of_set (r := .value (c.acquire .read)) found ?_).trans hv
    rw [hpeek]
    rfl

/-- A value that was computed for a value cache is stored, and copied next. -/
theorem copying_of_deposit (control : m.control = .give v)
    (stack : m.stack = .storing x.cache x.key :: .release x.cache .write :: base)
    (found : m.session.resources[x.cache]? = some (.value c)) : Copying x base v m.step := by
  have hstep : m.step = ⟨.eval (.copy v), .release x.cache .write :: base,
      m.session.setValue x.cache (c.deposit x.key v)⟩ := by
    rw [step, control, stack]
    show deposit x.cache x.key v _ m.session = _
    rw [deposit, found]
  refine ⟨by rw [hstep], ⟨.write, by rw [hstep]⟩, ?_⟩
  refine (stored_of_set (r := .value (c.deposit x.key v)) found ?_).trans ?_
  · rw [hstep]
    rfl
  · exact (Table.get?_insert ..).trans (if_pos rfl)

/-- A request that is refused gives no value. -/
theorem not_give_of_refuse {f : Fault} (control : m.control = .eval p)
    (hstep : m.step = refuse f m.stack m.session) (hends : Ends m.stack m m') :
    m'.control ≠ .give w := by
  have hm' : m' = m.step :=
    hends.eq_step (by rw [control]; rfl) (by rw [hstep]; rfl) (by rw [hstep]; rfl)
  rw [hm', hstep]
  exact fun h => nomatch h

/-- While the key has no value, the one that is computed for it is stored and then copied. -/
theorem Reachable.copying_of_miss (hm : Reachable m) (control : m.control = .eval p)
    (stack : m.step.stack = .storing x.cache x.key :: .release x.cache .write :: m.stack)
    (hends : Ends m.stack m m') (hw : m'.control = .give w) :
    ∃ v n, Leads m n ∧ Copying x m.stack v n ∧ Ends m.stack n m' := by
  have hmove : Move m m.step := .step (outcome?_eq_none_of_eval control)
  have hends' : Ends m.stack m.step m' := hends.of_eval control
  have hstoring : .storing x.cache x.key :: .release x.cache .write :: m.stack <:+ m.step.stack :=
    ⟨[], stack.symm⟩
  have hrelease : .release x.cache .write :: m.stack <:+ m.step.stack :=
    (List.suffix_cons ..).trans hstoring
  obtain ⟨m₂, hends₂, hlast⟩ := hends'.split hrelease
  obtain ⟨m₁, hends₁, hrest⟩ := hends₂.split hstoring
  have hm₁ : Reachable m₁ := (hm.move hmove).leads (hends₁.leads hstoring)
  cases hc : m₁.control with
  | eval q =>
    have houtcome := hends₁.isOutcome
    rw [hc] at houtcome
    cases houtcome
  | give v =>
    obtain ⟨c, found⟩ := hm₁.framed.hosted (hends₁.stack_eq ▸ List.mem_cons_self)
    refine ⟨v, m₁.step, ?_, copying_of_deposit hc hends₁.stack_eq found, ?_⟩
    · have hstep₁ : Move m₁ m₁.step := .step (outcome?_eq_none_of_stack hends₁.stack_eq)
      exact ((Relation.ReflTransGen.single hmove).trans (hends₁.leads hstoring)).tail hstep₁
    · have hpath : Path (fun _ => True) m.stack m.step m₁ :=
        hends₁.path.lower ((List.suffix_cons ..).trans (List.suffix_cons ..)) hstoring
      have hnext : Path (fun _ => True) m.stack m₁ m₁.step :=
        .leave hends₁.stack_eq (List.suffix_cons ..) trivial rfl
      exact (hpath.trans hnext).ends_iff.mp hends'
  | raise f =>
    -- the fault is passed on to the frames below
    have hstep₁ : m₁.step = ⟨.raise f, .release x.cache .write :: m.stack, m₁.session⟩ := by
      rw [step, hc, hends₁.stack_eq]
      rfl
    have hm₂ : m₂ = m₁.step := hrest.unique (.here (by rw [hstep₁]) (by rw [hstep₁]; rfl))
    have hstep₂ := step_release hends₂.stack_eq hends₂.isOutcome
    have hm' : m' = m₂.step := hlast.unique (.here (by rw [hstep₂])
      (by rw [hstep₂]; exact hends₂.isOutcome))
    rw [hm', hstep₂, hm₂, hstep₁] at hw
    cases hw

/-- An answer of a value cache is a copy of the stored value. -/
theorem Reachable.copying_of_ends (hm : Reachable m) (control : m.control = .eval p)
    (hp : Queries x mode p) (found : m.session.resources[x.cache]? = some (.value c))
    (hends : Ends m.stack m m') (hw : m'.control = .give w) :
    ∃ v n, Leads m n ∧ Copying x m.stack v n ∧ Ends m.stack n m' := by
  have hmove : Move m m.step := .step (outcome?_eq_none_of_eval control)
  have stored {v : Value} (free : c.guard.obstacle? mode = none)
      (hv : c.slots.get? x.key = some v) :
      ∃ v n, Leads m n ∧ Copying x m.stack v n ∧ Ends m.stack n m' :=
    ⟨v, m.step, .single hmove, (copying_of_stored control hp found free hv).1,
      hends.of_eval control⟩
  have hstep : m.step = begin p m.stack m.session := by
    rw [step, control]
  cases hp with
  | @get place key hplace hkey compute =>
    have found' : m.session.resources[place.id]? = some (.value c) := hplace ▸ found
    rcases step_getValue_cases control found' with
      ⟨-, f, hrefused⟩ | ⟨k, v, hk, hfree, hv, -⟩ | ⟨k, hk, -, -, -, hstack, -⟩
    · exact absurd hw (not_give_of_refuse control hrefused hends)
    · obtain rfl : x.key = k := Except.ok.inj (hkey.symm.trans hk)
      exact stored (Guard.obstacle?_of_not_isBorrowed hfree .write) hv
    · obtain rfl : x.key = k := Except.ok.inj (hkey.symm.trans hk)
      rw [hplace] at hstack
      exact hm.copying_of_miss control hstack hends hw
  | @peek place key hplace hkey =>
    cases hopened : c.openStored (m.session.request key) with
    | error f =>
      have hrefused : m.step = refuse f m.stack m.session := by
        rw [hstep]
        show Machine.peek place.id key m.stack m.session = _
        rw [Machine.peek, hplace, found]
        dsimp only
        rw [hopened]
      exact absurd hw (not_give_of_refuse control hrefused hends)
    | ok opened =>
      obtain ⟨free, ⟨k, hk, hv⟩, -⟩ := ValueCache.openStored_eq_ok_iff.mp hopened
      obtain rfl : x.key = k := Except.ok.inj (hkey.symm.trans (Request.index_eq_ok_iff.mp hk))
      exact stored free hv

/-! ### What a copy is -/

/-- What the copy gives is given to the frames below. -/
theorem Copying.ends_of_step (h : Copying x base v n) {s : Session}
    (hstep : n.step = ⟨.give w, n.stack, s⟩) :
    ∃ mode, Ends base n ⟨.give w, base, s.release x.cache mode⟩ := by
  obtain ⟨control, ⟨mode, stack⟩, -⟩ := h
  have hreleased : n.step.step = ⟨.give w, base, s.release x.cache mode⟩ := by
    rw [hstep, stack]
    rfl
  refine ⟨mode, .step (not_ended_of_eval control) (.step ?_ ?_)⟩
  · have hsuffix : .release x.cache mode :: base <:+ n.step.stack := by
      refine ⟨[], ?_⟩
      rw [hstep]
      exact stack.symm
    exact Trail.ne_of_suffix hsuffix
  · rw [hreleased]
    exact .here rfl rfl

/-- The copy of a stored list or dictionary is new, and the stored one is left alone. -/
theorem Copying.ends_of_holds (h : Copying x base v n) (hy : n.session.memory.Holds v y) :
    ∃ m' w, Ends base n m' ∧ m'.control = .give w ∧ m'.session.memory.Holds w y ∧
      m'.session.memory.Holds v y ∧
      ∃ b, w.address? = some b ∧ n.session.memory.contents? b = none := by
  obtain ⟨w, memory, hcopy, hw, hfresh⟩ := copy_of_holds n.stack n.session hy
  have hstep : n.step = ⟨.give w, n.stack, { n.session with memory }⟩ := by
    rw [step, h.control]
    exact hcopy
  obtain ⟨mode, hends⟩ := h.ends_of_step hstep
  have hpreserves : Memory.Preserves ∅ n.session.memory memory := by
    have hcopied := preserves_copy (F := ∅) n.stack n.session v
    rwa [hcopy] at hcopied
  refine ⟨_, w, hends, rfl, ?_, ?_, hfresh⟩
  · rw [Session.memory_release]
    exact hw
  · rw [Session.memory_release]
    exact hy.preserved hpreserves fun a _ => Set.notMem_empty a

/-- If the stored value is a list or dictionary when the copy has been given out, it was one when
the copy was made. -/
theorem Copying.holds_of_ends (h : Copying x base v n) (hends : Ends base n m')
    (hy : m'.session.memory.Holds v y) : ∃ y₀, n.session.memory.Holds v y₀ := by
  obtain ⟨a, hv, ha⟩ := hy.exists_address
  cases hc : n.session.memory.contents? a with
  | none =>
    -- an address that is not in use would not have come into use meanwhile
    have hstep : n.step = ⟨.give v, n.stack, n.session⟩ := by
      rw [step, h.control]
      exact copy_of_unused n.stack n.session hv hc
    obtain ⟨mode, hends'⟩ := h.ends_of_step hstep
    rw [hends.unique hends', Session.memory_release, hc] at ha
    cases ha
  | some y₀ =>
    obtain ⟨mode, stack⟩ := h.stack
    have hleads : Leads n m' := hends.leads (stack ▸ List.suffix_cons ..)
    exact ⟨y₀, hy.before hleads.memory hv hc⟩

/-- **An answer is a container of its own.**  What a value cache gives for a key whose stored value
is a list or dictionary has the contents of that and did not exist before. -/
theorem Reachable.copy_of_queries (hm : Reachable m) (control : m.control = .eval p)
    (hp : Queries x mode p) (found : m.session.resources[x.cache]? = some (.value c))
    (hends : Ends m.stack m m') (hw : m'.control = .give w) :
    ∃ v, m'.session.shared.stored x = some v ∧ ∀ y, m'.session.memory.Holds v y →
      m'.session.memory.Holds w y ∧ ∃ b, w.address? = some b ∧
        m.session.memory.contents? b = none ∧ v.address? ≠ some b := by
  obtain ⟨v, n, hleads, hcopying, hends'⟩ := hm.copying_of_ends control hp found hends hw
  obtain ⟨mode, stack⟩ := hcopying.stack
  have hleads' : Leads n m' := hends'.leads (stack ▸ List.suffix_cons ..)
  refine ⟨v, (hm.leads hleads).stored_leads hcopying.stored hleads', fun y hy => ?_⟩
  obtain ⟨y₀, hy₀⟩ := hcopying.holds_of_ends hends' hy
  obtain ⟨n', w', hends'', hw', hcopy, hy₀', b, hb, hunused⟩ := hcopying.ends_of_holds hy₀
  obtain rfl : m' = n' := hends'.unique hends''
  obtain rfl : w = w' := Control.give.inj (hw.symm.trans hw')
  obtain rfl : y = y₀ := hy.unique hy₀'
  refine ⟨hcopy, b, hb, hleads.memory.unused hunused, fun hv => ?_⟩
  -- the stored container was there when its copy was made
  obtain ⟨a, ha, hc⟩ := hy₀.exists_address
  obtain rfl : a = b := Option.some.inj (ha.symm.trans hv)
  cases hc.symm.trans hunused

/-- A request or a peek for a stored list or dictionary is answered with a copy that is new, unless
a view is in its way. -/
theorem answered_or_refused (control : m.control = .eval p) (hp : Queries x mode p)
    (found : m.session.resources[x.cache]? = some (.value c))
    (hv : m.session.shared.stored x = some v) (hy : m.session.memory.Holds v y) :
    ∃ m', Ends m.stack m m' ∧
      ((∃ w b, m'.control = .give w ∧ m'.session.memory.Holds w y ∧ w.address? = some b ∧
          m.session.memory.contents? b = none) ∨
        c.guard.obstacle? mode ≠ none ∧ ∃ f, m'.control = .raise f) := by
  cases hobstacle : c.guard.obstacle? mode with
  | none =>
    have hslot : c.slots.get? x.key = some v :=
      (Shared.stored_of_found (c := m.session.shared) found).symm.trans hv
    obtain ⟨hcopying, hmemory⟩ := copying_of_stored control hp found hobstacle hslot
    obtain ⟨m', w, hends, hw, hcopy, -, b, hb, hunused⟩ :=
      hcopying.ends_of_holds (hmemory ▸ hy)
    exact ⟨m', .step (not_ended_of_eval control) hends,
      .inl ⟨w, b, hw, hcopy, hb, hmemory ▸ hunused⟩⟩
  | some active =>
    have hstep : m.step = begin p m.stack m.session := by
      rw [step, control]
    obtain ⟨key, hdemands⟩ := hp.exists_demands found
    have hrefused := hstep.trans (hdemands.begin_of_obstacle found hobstacle m.stack)
    refine ⟨m.step, .step (not_ended_of_eval control) (.here ?_ ?_),
      .inr ⟨Option.some_ne_none active, ?_⟩⟩
    · rw [hrefused]
      rfl
    · rw [hrefused]
      rfl
    · rw [hrefused]
      exact ⟨_, rfl⟩

/-! ### Changes of what was given out -/

/-- The container at an address was given out by a value cache for a key whose stored value is a
list or dictionary, before the session came to `n`. -/
def Returned (x : Task) (b : Nat) (n : Machine) : Prop :=
  ∃ m m' mode p c v w y, Reachable m ∧ m.control = .eval p ∧ Queries x mode p ∧
    m.session.resources[x.cache]? = some (.value c) ∧ Ends m.stack m m' ∧ m'.control = .give w ∧
    m'.session.shared.stored x = some v ∧ m'.session.memory.Holds v y ∧ w.address? = some b ∧
    Leads m' n

theorem Returned.address_ne {b : Nat} (h : Returned x b n)
    (hv : n.session.shared.stored x = some v) : v.address? ≠ some b := by
  obtain ⟨m, m', mode, p, c, v', w, y, hm, control, hp, found, hends, hw, hv', hy, hb, hleads⟩ := h
  obtain ⟨u, hu, hcopy⟩ := hm.copy_of_queries control hp found hends hw
  obtain rfl : u = v' := Option.some.inj (hu.symm.trans hv')
  have hm' : Reachable m' := hm.leads (hends.leads List.suffix_rfl)
  obtain rfl : u = v := Option.some.inj ((hm'.stored_leads hu hleads).symm.trans hv)
  obtain ⟨-, b', hb', -, hne⟩ := hcopy y hy
  obtain rfl : b' = b := Option.some.inj (hb'.symm.trans hb)
  exact hne

/-- A move that changes the stored container of a key only if that is one that was given out. -/
def Spares (x : Task) (n n' : Machine) : Prop :=
  Move n n' ∧ ∀ v a, n.session.shared.stored x = some v → v.address? = some a → a ∈ n.changed →
    Returned x a n

/-- A change of a container that was given out does not reach the stored one. -/
theorem Spares.holds (h : Spares x n m') (hv : n.session.shared.stored x = some v)
    (hy : n.session.memory.Holds v y) : m'.session.memory.Holds v y := by
  obtain ⟨hmove, hspares⟩ := h
  exact hy.preserved hmove.memory fun a ha hchanged =>
    (hspares v a hv ha hchanged).address_ne hv ha

theorem spares_of_returned {b : Nat} (hmove : Move n m') (hb : Returned x b n)
    (hchanged : n.changed ⊆ {b}) : Spares x n m' := by
  refine ⟨hmove, fun v a _ _ ha => ?_⟩
  obtain rfl : a = b := hchanged ha
  exact hb

theorem leads_of_spares (h : Relation.ReflTransGen (Spares x) m n) : Leads m n :=
  Relation.ReflTransGen.mono (fun _ _ hspares => hspares.1) _ _ h

theorem Reachable.holds_of_spares (hm : Reachable m) (hv : m.session.shared.stored x = some v)
    (hy : m.session.memory.Holds v y) (h : Relation.ReflTransGen (Spares x) m n) :
    n.session.memory.Holds v y := by
  induction h with
  | refl => exact hy
  | tail hfirst hlast ih => exact hlast.holds (hm.stored_leads hv (leads_of_spares hfirst)) ih

/-- **What value caches give out is never the stored container.**  Whenever a request or a peek for
a key gives a value, and the stored value is a list or dictionary then, the given one is another
with the same contents, which did not exist before the call; this goes for the request that has the
value stored as well.  So whatever is done to containers that were given out leaves the stored one
as it is, and as long as nothing else changes that, every answer for the key has the contents that
the stored container has had from the start. -/
theorem copies_never_alias (hm : Reachable m) (x : Task) :
    (∀ mode p c m' w, m.control = .eval p → Queries x mode p →
      m.session.resources[x.cache]? = some (.value c) → Ends m.stack m m' → m'.control = .give w →
      ∃ v, m'.session.shared.stored x = some v ∧ ∀ y, m'.session.memory.Holds v y →
        m'.session.memory.Holds w y ∧ ∃ b, w.address? = some b ∧
          m.session.memory.contents? b = none ∧ v.address? ≠ some b) ∧
    ∀ v y, m.session.shared.stored x = some v → m.session.memory.Holds v y →
      (∀ b m', Move m m' → m.changed ⊆ {b} → Returned x b m → m'.session.memory.Holds v y) ∧
      ∀ n, Relation.ReflTransGen (Spares x) m n →
        n.session.shared.stored x = some v ∧ n.session.memory.Holds v y ∧
        ∀ mode p c, n.control = .eval p → Queries x mode p →
          n.session.resources[x.cache]? = some (.value c) →
          ∃ n', Ends n.stack n n' ∧
            ((∃ w b, n'.control = .give w ∧ n'.session.memory.Holds w y ∧ w.address? = some b ∧
                n.session.memory.contents? b = none) ∨
              c.guard.obstacle? mode ≠ none ∧ ∃ f, n'.control = .raise f) := by
  refine ⟨fun mode p c m' w control hp found hends hw =>
    hm.copy_of_queries control hp found hends hw, fun v y hv hy => ⟨?_, ?_⟩⟩
  · intro b m' hmove hchanged hb
    exact (spares_of_returned hmove hb hchanged).holds hv hy
  · intro n hspares
    have hv' : n.session.shared.stored x = some v :=
      hm.stored_leads hv (leads_of_spares hspares)
    have hy' : n.session.memory.Holds v y := hm.holds_of_spares hv hy hspares
    exact ⟨hv', hy', fun mode p c control hp found => answered_or_refused control hp found hv' hy'⟩

/-- Has a list computed for a key, adds an item to the answer, and asks for the key again. -/
def appendToAnswer (place : Place) : Program :=
  .bind (.get place (.text "k") fun _ => .perform (.memory (.newList [.int 1]))) fun answer =>
    .andThen (.perform (.memory (.append answer (.int 2))))
      (.get place (.text "k") fun _ => .done .null)

/-- The machine that asks a new value cache for the list. -/
def askingForList : Machine :=
  (load (.andThen (.perform (.create (.value "c" none))) (.reach (.named "c") appendToAnswer))
    (.start .events [])).run 5

/-- The machine that has the answer. -/
def answeredList : Machine := askingForList.run 5

/-- The machine that is about to add an item to the answer. -/
def appending : Machine := answeredList.step.step

/-- The machine that asks for the list again. -/
def askingForListAgain : Machine := appending.step.step

theorem copies_never_alias_appended :
    Reachable askingForList ∧ Ends askingForList.stack askingForList answeredList ∧
      answeredList.control = .give (.list 1) ∧
      answeredList.session.shared.stored ⟨0, .ofAtoms [.text "k"]⟩ = some (.list 0) ∧
      answeredList.session.memory.Holds (.list 1) (.list #[.int 1]) ∧
      appending.control = .eval (.perform (.memory (.append (.list 1) (.int 2)))) ∧
      appending.step.session.memory.Holds (.list 0) (.list #[.int 1]) ∧
      ∃ n' w, Ends askingForListAgain.stack askingForListAgain n' ∧ n'.control = .give w ∧
        n'.session.memory.Holds w (.list #[.int 1]) := by
  have hm : Reachable askingForList := (Reachable.start ..).leads (leads_run ..)
  have hends : Ends askingForList.stack askingForList answeredList :=
    .of_find? 10 List.suffix_rfl rfl
  have hanswered : Reachable answeredList := hm.leads (leads_run ..)
  have hstored : answeredList.session.shared.stored ⟨0, .ofAtoms [.text "k"]⟩ = some (.list 0) :=
    rfl
  have hlist : answeredList.session.memory.Holds (.list 0) (.list #[.int 1]) := .list rfl
  have hasks : Queries ⟨0, .ofAtoms [.text "k"]⟩ .write (.get ⟨0, none⟩ (.text "k") _) :=
    .get rfl rfl fun _ => .perform (.memory (.newList [.int 1]))
  obtain ⟨v, hv, hcopy⟩ :=
    (copies_never_alias hm ⟨0, .ofAtoms [.text "k"]⟩).1 _ _ _ _ _ rfl hasks rfl hends rfl
  obtain rfl : v = .list 0 := Option.some.inj (hv.symm.trans hstored)
  obtain ⟨hanswer, -⟩ := hcopy _ hlist
  -- until the item is added, nothing is changed
  have hidle {n : Machine} (hmove : Move n n.step) (hchanged : n.changed = ∅) :
      Spares ⟨0, .ofAtoms [.text "k"]⟩ n n.step :=
    ⟨hmove, fun _ _ _ _ ha => absurd ha (hchanged ▸ Set.notMem_empty _)⟩
  have htoAppending : Relation.ReflTransGen (Spares ⟨0, .ofAtoms [.text "k"]⟩) answeredList
      appending := .tail (.single (hidle (.step rfl) rfl)) (hidle (.step rfl) rfl)
  have hreturned : Returned ⟨0, .ofAtoms [.text "k"]⟩ 1 appending :=
    ⟨_, _, _, _, _, _, _, _, hm, rfl, hasks, rfl, hends, rfl, hstored, hlist, rfl,
      leads_of_spares htoAppending⟩
  have hmove : Move appending appending.step := .step rfl
  have happending : Reachable appending := hanswered.leads (leads_of_spares htoAppending)
  obtain ⟨hspared, -⟩ := (copies_never_alias happending ⟨0, .ofAtoms [.text "k"]⟩).2 (.list 0) _ rfl
    (.list rfl)
  have hsame := hspared 1 _ hmove Set.Subset.rfl hreturned
  have htoAskingAgain : Relation.ReflTransGen (Spares ⟨0, .ofAtoms [.text "k"]⟩) answeredList
      askingForListAgain :=
    .tail (htoAppending.tail (spares_of_returned hmove hreturned Set.Subset.rfl))
      (hidle (.step rfl) rfl)
  obtain ⟨-, hlater⟩ :=
    (copies_never_alias hanswered ⟨0, .ofAtoms [.text "k"]⟩).2 (.list 0) _ hstored hlist
  obtain ⟨-, -, hanswers⟩ := hlater _ htoAskingAgain
  have hasksAgain : Queries ⟨0, .ofAtoms [.text "k"]⟩ .write (.get ⟨0, none⟩ (.text "k") _) :=
    .get rfl rfl fun _ => .done .null
  obtain ⟨n', hn', ⟨w, b, hw, hcopied, -⟩ | ⟨hblocked, -⟩⟩ := hanswers _ _ _ rfl hasksAgain rfl
  · exact ⟨hm, hends, rfl, hstored, hanswer, rfl, hsame, n', w, hn', hw, hcopied⟩
  · exact absurd rfl hblocked

end CheckedMemo.Machine
