import CheckedMemo.Proofs.Hooks

/-!
# Artifacts are extracted once

Once the code that extracts the artifact of a key has returned, and the cache takes what it gave, no
hook of the override that is called later on the same thread extracts for that key again
(`extracted_once`).  Nothing marks a key while its artifact is being extracted, though, so a call
for the key that is made in the middle of an extraction extracts as well, and what the outer
extraction gives is dropped then (`extracted_twice`).
-/

namespace CheckedMemo

namespace StableCache

variable {c : StableCache} {r : Request} {k : Key} {b : Bool} {t : Thread}

theorem contains_eq_ok_iff :
    c.contains r = .ok b ↔ c.guard.obstacle? .read = none ∧ ∃ k, r.index = .ok k ∧
      (c.slots.get? k).isSome = b := by
  unfold contains
  constructor
  · intro h
    obtain ⟨o, ho, h⟩ := exists_of_bind_eq_ok h
    obtain ⟨hfree, k, hk, rfl⟩ := find_eq_ok_iff.mp ho
    cases h
    exact ⟨hfree, k, hk, rfl⟩
  · rintro ⟨hfree, k, hk, rfl⟩
    rw [find_eq_ok_iff.mpr ⟨hfree, k, hk, rfl⟩]
    rfl

/-- A request for a key that a cache does not accept is refused. -/
theorem exists_start_of_not_accepts (hk : r.index = .ok k) (h : ¬c.Accepts k) :
    ∃ f, c.start t r = .error f := by
  cases hstart : c.start t r with
  | error f => exact ⟨f, rfl⟩
  | ok found =>
    refine absurd ?_ h
    cases found with
    | hit v c' =>
      obtain ⟨hfree, ⟨j, hj, hv⟩, -⟩ := start_eq_hit_iff.mp hstart
      obtain rfl : k = j := Except.ok.inj (hk.symm.trans hj)
      exact ⟨hfree, .inl (by rw [hv]; exact Option.some_ne_none v)⟩
    | miss shown j c' =>
      obtain ⟨hfree, hj, -, hunmarked, -⟩ := start_eq_miss_iff.mp hstart
      obtain rfl : k = j := Except.ok.inj (hk.symm.trans hj)
      exact ⟨Guard.obstacle?_of_not_isBorrowed hfree .read, .inr ⟨hfree, hunmarked⟩⟩

end StableCache

namespace Session

theorem shared_timed (s : Session) (label : String) (b : Bool) :
    (s.timed label b).shared = s.shared := by
  cases b <;> rfl

theorem registry_timed (s : Session) (label : String) (b : Bool) :
    (s.timed label b).registry = s.registry := by
  cases b <;> rfl

variable {s : Session} {id r : Nat} {t : Thread} {k : Key} {o : Override} {c : StableCache}

theorem artifact_of_part (ho : s.overrides[id]? = some o) (hr : s.part o.artifacts t = some r)
    (found : s.resources[r]? = some (.stable c)) : s.artifact id t k = c.slots.get? k := by
  rw [artifact, artifactCache, ho, Option.bind_some, confinedCache_of_part hr,
    stableAt_eq_some_iff.mpr found, Option.bind_some]

end Session

namespace Machine

variable {m a n : Machine} {id behind r : Nat} {call : Call} {k : Key} {t : Thread} {w : Value}
  {o : Override} {c : StableCache}

/-- An artifact that has been captured stays. -/
theorem Reachable.artifact_leads (hm : Reachable m) (h : m.session.artifact id t k = some w)
    (hleads : Leads m n) : n.session.artifact id t k = some w := by
  obtain ⟨cache, hcache, hw⟩ := Option.bind_eq_some_iff.mp h
  obtain ⟨o, ho, hcache⟩ := Option.bind_eq_some_iff.mp hcache
  obtain ⟨r, hr⟩ := Session.part_of_slots hcache hw
  rw [Session.confinedCache_of_part hr, Session.stableAt_eq_some_iff] at hcache
  have hstored : m.session.shared.stored ⟨r, k⟩ = some w := by
    rw [Shared.stored_of_found (c := m.session.shared) hcache]
    exact hw
  have hstored' := hm.stored_leads hstored hleads
  obtain ⟨c', found'⟩ := hm.stable_leads hcache hleads
  rw [Shared.stored_of_found (c := n.session.shared) found'] at hstored'
  rw [Session.artifact_of_part (hleads.extends.override ho) (hleads.extends.part hr) found']
  exact hstored'

/-- At `m` a hook of an override is called, and at `a` the call has come to the first code that it
calls, which is the one that extracts; what is extracted there is waited for. -/
def Extracts (id : Nat) (call : Call) (m a : Machine) : Prop :=
  ∃ behind o, Hooking id behind o call m ∧ Silent m.stack m.step a ∧
    a.control = .eval (.invoke o.extract call) ∧ a.stack ≠ m.stack

/-- A hook extracts where its key can be looked up and has no artifact, can be shown, and where the
timing flag is valid. -/
theorem Extracts.inv (hm : Reachable m) (h : Extracts id call m a) :
    ∃ behind o place s c text b, Hooking id behind o call m ∧
      m.session.locateArtifacts id = .ok (place, s) ∧
      m.session.Locates o.artifacts place s ∧ s.resources[place.id]? = some (.stable c) ∧
      m.session.artifactCache id m.session.thread = some c ∧
      c.contains (s.request call.key) = .ok false ∧
      (s.request call.key).spelled = .ok text ∧
      a = ⟨.eval (.invoke o.extract call), Frame.timing (o.blockLabel text.text) b ++
        .populating place call :: .passing behind call :: m.stack, s⟩ := by
  obtain ⟨behind, o, hooking, silent, control, stack⟩ := h
  obtain ⟨place, s, c, located, locates, found, hcache⟩ := hooking.exists_located hm
  rw [hooking.step_eq] at silent
  have hinvoke : ¬a.control.isInvoke = false := by
    rw [control]
    exact Bool.noConfusion
  have hfails {f : Fault} {s' : Session} (hs : Silent m.stack
      ⟨.eval (o.hook id behind call), m.stack, m.session⟩ ⟨.raise f, m.stack, s'⟩) : False := by
    obtain rfl := hs.unique silent (.inr ⟨rfl, rfl⟩) hinvoke
    cases control
  have hstack : m.stack <:+ .populating place call :: .passing behind call :: m.stack :=
    (List.suffix_cons ..).trans (List.suffix_cons ..)
  cases hcontains : c.contains (s.request call.key) with
  | error f => exact (hfails (silent_refused located found hcontains)).elim
  | ok present =>
    cases present with
    | true =>
      have hpassed : Silent m.stack ⟨.eval (o.hook id behind call), m.stack, m.session⟩
          ⟨.eval (.invoke behind call), m.stack, s⟩ := silent_present located found hcontains
      obtain rfl := hpassed.unique silent (.inl Bool.noConfusion) hinvoke
      exact absurd rfl stack
    | false =>
      have habsent : Silent m.stack ⟨.eval (o.hook id behind call), m.stack, m.session⟩
          ⟨.eval (o.extraction call),
            .populating place call :: .passing behind call :: m.stack, s⟩ :=
        silent_absent located found hcontains
      have hfailed {f : Fault} (hs : Silent m.stack ⟨.eval (o.extraction call),
          .populating place call :: .passing behind call :: m.stack, s⟩
          ⟨.raise f, .populating place call :: .passing behind call :: m.stack, s.report f⟩) :
          False :=
        hfails ((habsent.trans hs).trans (silent_failed "" false))
      cases hspelled : (s.request call.key).spelled with
      | error f => exact (hfailed (silent_extraction_unspelled hstack hspelled)).elim
      | ok text =>
        cases hflag : s.environment.timing with
        | error f => exact (hfailed (silent_extraction_unflagged hstack hspelled hflag)).elim
        | ok b =>
          have hextracts := habsent.trans (silent_extraction hstack hspelled hflag)
          refine ⟨behind, o, place, s, c, text, b, hooking, located, locates, found, hcache,
            hcontains, hspelled, ?_⟩
          exact (hextracts.unique silent (.inl Bool.noConfusion) hinvoke).symm

/-- A hook does not extract for a key that has its artifact. -/
theorem Extracts.artifact_eq_none (hm : Reachable m) (h : Extracts id call m a)
    (hkey : call.key.key = .ok k) : m.session.artifact id m.session.thread k = none := by
  obtain ⟨_, _, _, s, c, _, _, -, -, -, -, hcache, hcontains, -⟩ := h.inv hm
  obtain ⟨-, j, hj, hnone⟩ := StableCache.contains_eq_ok_iff.mp hcontains
  obtain rfl := index_eq hkey hj
  rw [Session.artifact, hcache, Option.bind_some]
  exact Option.not_isSome_iff_eq_none.mp (by rw [hnone]; exact Bool.noConfusion)

/-- The machine at which an extraction has given a value. -/
theorem Extracts.returned (hm : Reachable m) (h : Extracts id call m a) {a' : Machine} {v : Value}
    (hends : Ends a.stack a a') (hv : a'.control = .give v) (hkey : call.key.key = .ok k) :
    ∃ behind o place c label b, Hooking id behind o call m ∧ Leads m a' ∧ k.isShowable = true ∧
      a'.session.thread = m.session.thread ∧
      a'.session.part o.artifacts m.session.thread = some place.id ∧
      a'.session.resources[place.id]? = some (.stable c) ∧
      a' = ⟨.give v, Frame.timing label b ++ .populating place call :: .passing behind call ::
        m.stack, a'.session⟩ := by
  obtain ⟨behind, o, place, s, c, text, b, hooking, -, locates, found, -, -, hspelled, ha⟩ :=
    h.inv hm
  obtain ⟨-, -, -, silent, -⟩ := h
  obtain ⟨code, control, -⟩ := hooking.calls
  have hm₁ : Leads m a :=
    .head (.step (outcome?_eq_none_of_eval control)) (silent.leads hooking.suffix_step)
  have hleads : Leads a a' := hends.leads List.suffix_rfl
  have hsession : a.session = s := congrArg Machine.session ha
  have hthread : s.thread = m.session.thread := by
    obtain ⟨resources, confined, rfl⟩ := locates.rest
    rfl
  have hpart : a'.session.part o.artifacts m.session.thread = some place.id := by
    refine hleads.extends.part ?_
    rw [hsession]
    exact locates.part
  obtain ⟨c', found'⟩ := (hm.leads hm₁).stable_leads (hsession ▸ found) hleads
  refine ⟨behind, o, place, c', o.blockLabel text.text, b, hooking, hm₁.trans hleads,
    (s.spelled_isOk_iff hkey).mp ⟨text, hspelled⟩, ?_, hpart, found', ?_⟩
  · rw [hends.thread_eq, hsession, hthread]
  · have hstack : a'.stack = Frame.timing (o.blockLabel text.text) b ++
        .populating place call :: .passing behind call :: m.stack :=
      hends.stack_eq.trans (congrArg Machine.stack ha)
    obtain ⟨control', stack', s'⟩ := a'
    obtain rfl : control' = .give v := hv
    obtain rfl := hstack
    rfl

theorem found_timed {s : Session} (found : s.resources[r]? = some (.stable c)) (label : String)
    (b : Bool) : (s.timed label b).resources[r]? = some (.stable c) :=
  (congrArg (·.resources[r]?) (s.shared_timed label b)).trans found

/-- A value that an extraction has given is captured if the cache takes it, and the call is passed
on. -/
theorem Reachable.captures (hm : Reachable m) {place : Place} {v : Value} {label : String}
    {b : Bool} {base : List Frame} (hmachine : m = ⟨.give v, Frame.timing label b ++
      .populating place call :: .passing behind call :: base, m.session⟩)
    (ho : m.session.overrides[id]? = some o) (hpart : m.session.part o.artifacts t = some place.id)
    (found : m.session.resources[place.id]? = some (.stable c)) (hkey : call.key.key = .ok k)
    (showable : k.isShowable = true) (accepts : c.Accepts k) :
    ∃ z c', Silent base m z ∧ base <:+ m.stack ∧ z.control = .eval (.invoke behind call) ∧
      z.stack = base ∧ z.session.thread = m.session.thread ∧ c.StoresAs k v c' ∧
      ∀ id', z.session.artifactCache id' t =
        if id' = id then some c' else m.session.artifactCache id' t := by
  let s : Session := m.session.timed label b
  obtain ⟨c', journal, hstores, hpopulated⟩ := silent_populate (v := v)
    (List.suffix_cons (.passing behind call) base) (found_timed found label b) hkey showable accepts
  let z : Machine := ⟨.eval (.invoke behind call), base, s.withCache place.id c' journal⟩
  have hz : Silent base m z := by
    rw [hmachine]
    exact ((silent_given label b).trans hpopulated).trans
      (Silent.resume rfl List.suffix_rfl rfl rfl)
  have hb : base <:+ m.stack := by
    rw [hmachine]
    exact ⟨Frame.timing label b ++ [.populating place call, .passing behind call], by simp⟩
  have hshared : z.session.shared = m.session.shared.set place.id (.stable c') :=
    congrArg (·.set place.id (.stable c')) (m.session.shared_timed label b)
  exact ⟨z, c', hz, hb, rfl, rfl, congrArg Shared.thread hshared, hstores,
    hm.orderly.artifactCache_set ho hpart hshared (m.session.registry_timed label b)⟩

theorem artifact_of_storesAs {s : Session} {c' : StableCache} {v : Value}
    (h : s.artifactCache id t = some c') (hstores : c.StoresAs k v c') :
    s.artifact id t k = some ((c.slots.get? k).getD v) := by
  rw [Session.artifact, h, Option.bind_some, hstores.slots, Table.get?_insertIfNew, if_pos rfl]

/-- A value that an extraction has given is lost if the cache does not take it, and the call
fails. -/
theorem loses {place : Place} {v : Value} {label : String} {b : Bool} {base : List Frame}
    (hmachine : m = ⟨.give v, Frame.timing label b ++
      .populating place call :: .passing behind call :: base, m.session⟩)
    (found : m.session.resources[place.id]? = some (.stable c)) (hkey : call.key.key = .ok k)
    (refused : ¬c.Accepts k) :
    ∃ z f, Silent base m z ∧ z.control = .raise f ∧ z.stack = base ∧
      z.session.shared = m.session.shared := by
  let s : Session := m.session.timed label b
  obtain ⟨f, hf⟩ := StableCache.exists_start_of_not_accepts (t := s.thread)
    (Request.index_eq_ok_iff.mpr hkey : (s.request call.key).index = .ok k) refused
  have hpopulated := silent_populate_refused (v := v)
    (List.suffix_cons (.passing behind call) base) (found_timed found label b) hf
  refine ⟨⟨.raise f, base, s.report f⟩, f, ?_, rfl, rfl, ?_⟩
  · rw [hmachine]
    exact ((silent_given label b).trans hpopulated).trans
      (Silent.resume rfl List.suffix_rfl rfl rfl)
  · exact (Session.shared_report ..).trans (m.session.shared_timed label b)

/-! ### Main statement -/

/-- **An artifact is extracted once.**  Once the code that extracts has returned a value for a key,
what happens depends on the cache for the artifacts.  If it has the key, or no view is active and
the key is not marked, the call is passed on; the key has its artifact for good, which is the value
that was returned unless there was one already; and from the return on no call of a hook of the
override on that thread extracts for the key.  Otherwise the call fails, and nothing is stored. -/
theorem extracted_once (hm : Reachable m) (h : Extracts id call m a) {a' : Machine} {v : Value}
    (hkey : call.key.key = .ok k) (hends : Ends a.stack a a') (hv : a'.control = .give v) :
    ∃ behind o r c, Hooking id behind o call m ∧
      a'.session.part o.artifacts m.session.thread = some r ∧
      a'.session.resources[r]? = some (.stable c) ∧
      (c.Accepts k → ∃ z, Silent m.stack a' z ∧ z.control = .eval (.invoke behind call) ∧
        z.stack = m.stack ∧
        (∀ n, Leads z n → n.session.artifact id m.session.thread k =
          some ((c.slots.get? k).getD v)) ∧
        ∀ n call' a₂, Leads a' n → n.session.thread = m.session.thread →
          call'.key.key = .ok k → ¬Extracts id call' n a₂) ∧
      (¬c.Accepts k → ∃ z f, Silent m.stack a' z ∧ z.control = .raise f ∧ z.stack = m.stack ∧
        z.session.shared = a'.session.shared) := by
  obtain ⟨behind, o, place, c, label, b, hooking, hm₁, showable, -, hpart, found, ha'⟩ :=
    h.returned hm hends hv hkey
  have hr' : Reachable a' := hm.leads hm₁
  refine ⟨behind, o, place.id, c, hooking, hpart, found, fun accepts => ?_,
    fun refused => loses ha' found hkey refused⟩
  obtain ⟨z, c', hz, hb, hcontrol, hstack, -, hstores, hcaches⟩ := hr'.captures ha'
    (hm₁.extends.override hooking.override) hpart found hkey showable accepts
  have hzr : Reachable z := hr'.leads (hz.leads hb)
  have hartifact := artifact_of_storesAs ((hcaches id).trans (if_pos rfl)) hstores
  refine ⟨z, hz, hcontrol, hstack, fun n hn => hzr.artifact_leads hartifact hn, ?_⟩
  intro n call' a₂ hn hthread hkey' hextracts
  rcases hz.leads_cases hb hn with hquiet | hlater
  · -- no code is called before the call is passed on
    obtain ⟨-, -, ⟨⟨code, control, -⟩, -⟩, -⟩ := hextracts
    rw [control] at hquiet
    cases hquiet
  · have hnone := hextracts.artifact_eq_none (hr'.leads hn) hkey'
    rw [hthread] at hnone
    cases hnone.symm.trans (hzr.artifact_leads hartifact hlater)

/-- Has the query answered for the key once more before it gives something, unless it was asked with
a further argument. -/
def queryAgain (call : Call) : Program :=
  match call.positional with
  | [] =>
    .andThen
      (.locate (.provider "p" "q") fun code => .invoke code { call with positional := [.int 1] })
      (.done (.text "outer"))
  | _ => .done (.text "inner")

/-- Runs a query with an override that asks again while it extracts. -/
def queryingAgain : Program :=
  .andThen (.perform (.create (.providers "p"))) <|
    .store (fun _ => .done .null) fun code =>
      .andThen (.perform (.table (.provide "p" "q" code))) <|
        .store queryAgain fun extract =>
          .andThen (.perform (.create (.override "o" "q" extract))) <|
            .andThen (.perform (.table (.install "o" "p"))) <|
              .locate (.provider "p" "q") fun code => .invoke code { key := .text "k" }

/-- The machine at which the query is called. -/
def outerCall : Machine := (load queryingAgain (.start .events [])).run 15

/-- The machine at which the override extracts. -/
def outerExtraction : Machine := outerCall.run 11

/-- The machine at which the query is called again, from the extraction. -/
def innerCall : Machine := outerExtraction.run 3

/-- The machine at which the override extracts again. -/
def innerExtraction : Machine := innerCall.run 11

/-- The machine at which the inner extraction has returned. -/
def innerReturned : Machine := innerExtraction.run 2

/-- The machine at which the outer extraction has returned. -/
def outerReturned : Machine := innerReturned.run 12

theorem extracts_outerCall : Extracts 0 { key := .text "k" } outerCall outerExtraction :=
  ⟨0, _, ⟨⟨2, rfl, rfl⟩, rfl⟩, .of_firstCall? 11 rfl, rfl,
    fun h => absurd (congrArg List.length h) (by decide)⟩

theorem extracts_innerCall :
    Extracts 0 { key := .text "k", positional := [.int 1] } innerCall innerExtraction :=
  ⟨0, _, ⟨⟨2, rfl, rfl⟩, rfl⟩, .of_firstCall? 11 rfl, rfl,
    fun h => absurd (congrArg List.length h) (by decide)⟩

theorem reachable_outerCall : Reachable outerCall := (Reachable.start ..).leads (leads_run ..)

theorem ends_outerExtraction : Ends outerExtraction.stack outerExtraction outerReturned :=
  .of_find? 40 List.suffix_rfl rfl

/-- What is in the cache for the artifacts when the outer extraction has returned. -/
theorem accepts_outerReturned {c : StableCache}
    (found : outerReturned.session.resources[0]? = some (.stable c)) :
    c.Accepts (.ofAtoms [.text "k"]) ∧
      c.slots.get? (.ofAtoms [.text "k"]) = some (.text "inner") := by
  cases found
  exact ⟨⟨rfl, .inl (by decide)⟩, rfl⟩

theorem extracted_once_queryingAgain :
    Reachable outerCall ∧ Extracts 0 { key := .text "k" } outerCall outerExtraction ∧
      (Value.text "k").key = .ok (.ofAtoms [.text "k"]) ∧
      Ends outerExtraction.stack outerExtraction outerReturned ∧
      outerReturned.control = .give (.text "outer") ∧
      ∃ c z, outerReturned.session.resources[0]? = some (.stable c) ∧
        c.Accepts (.ofAtoms [.text "k"]) ∧ Silent outerCall.stack outerReturned z ∧
        z.session.artifact 0 "main" (.ofAtoms [.text "k"]) = some (.text "inner") := by
  refine ⟨reachable_outerCall, extracts_outerCall, rfl, ends_outerExtraction, rfl, ?_⟩
  obtain ⟨behind, o, r, c, hooking, hpart, found, hcaptures, -⟩ :=
    extracted_once reachable_outerCall extracts_outerCall (k := .ofAtoms [.text "k"]) rfl
      ends_outerExtraction rfl
  have ho : outerCall.session.overrides[0]? = some ⟨"q", 1, 1⟩ := rfl
  obtain rfl := Option.some.inj (ho.symm.trans hooking.override)
  have hr : outerReturned.session.part 1 "main" = some 0 := rfl
  obtain rfl : 0 = r := Option.some.inj (hr.symm.trans hpart)
  obtain ⟨accepts, hslot⟩ := accepts_outerReturned found
  obtain ⟨z, hz, -, -, hartifact, -⟩ := hcaptures accepts
  have hinner := hartifact z .refl
  rw [hslot] at hinner
  exact ⟨c, z, found, accepts, hz, hinner⟩

/-- A query that is called in the middle of an extraction for its key has the override extract
again: both extractions return, and what the outer one gives is dropped. -/
theorem extracted_twice :
    Reachable outerCall ∧ Extracts 0 { key := .text "k" } outerCall outerExtraction ∧
      Leads outerExtraction innerCall ∧
      Extracts 0 { key := .text "k", positional := [.int 1] } innerCall innerExtraction ∧
      innerCall.session.thread = outerCall.session.thread ∧
      Ends innerExtraction.stack innerExtraction innerReturned ∧
      innerReturned.control = .give (.text "inner") ∧
      Ends outerExtraction.stack outerExtraction outerReturned ∧
      outerReturned.control = .give (.text "outer") ∧
      Ends outerCall.stack outerReturned (outerReturned.run 8) ∧
      (outerReturned.run 8).session.artifact 0 "main" (.ofAtoms [.text "k"]) =
        some (.text "inner") :=
  ⟨reachable_outerCall, extracts_outerCall, leads_run .., extracts_innerCall, rfl,
    .of_find? 3 List.suffix_rfl rfl, rfl, ends_outerExtraction, rfl,
    .of_find? 9 (List.nil_suffix ..) rfl, rfl⟩

end Machine

end CheckedMemo
