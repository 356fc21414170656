import CheckedMemo.Proofs.Footprints
import CheckedMemo.Proofs.Sameness

/-!
# Threads do not interfere

Uses of a per-thread cache that are made in turn on any threads come, on each thread, to the results
that the uses on this thread come to if only they are made (`UsedInTurn.on_thread`): each of them
depends on the part of its thread alone, and changes no other.
-/

namespace CheckedMemo

/-- Whether sessions come to a state in which any program may be loaded. -/
def Session.Arises (s : Session) : Prop := ∀ p, Machine.Reachable (.load p s)

theorem Session.arises_start (audience : Audience) (environment : List (String × Option String)) :
    (Session.start audience environment).Arises :=
  fun p => Machine.Reachable.start audience environment p

namespace Machine

variable {L : Likeness} {m : Machine} {s s' s₁ s₂ : Session} {target target' : Target}
  {id id' : Nat} {hint : Option String} {t : Thread} {u : Use} {uses : List (Thread × Use)}
  {rs rs' : List (Except Fault Value)} {c : StableCache}

theorem Reachable.arises (hm : Reachable m) (hend : m.outcome?.isSome = true) :
    m.session.Arises :=
  fun p => hm.move (.next hend p)

/-- Uses of the per-thread cache behind a target are made in turn, each on its thread, and come to
results. -/
inductive UsedInTurn (target : Target) :
    Session → List (Thread × Use) → List (Except Fault Value) → Session → Prop where
  | done (s : Session) : UsedInTurn target s [] [] s
  | use {s s' : Session} {t : Thread} {u : Use} {r : Except Fault Value} {m : Machine}
    {uses : List (Thread × Use)} {rs : List (Except Fault Value)}
    (ends : Ends [] (load (.on t (u.program target)) s) m) (result : m.control = .ofOutcome r)
    (rest : UsedInTurn target m.session uses rs s') :
    UsedInTurn target s ((t, u) :: uses) (r :: rs) s'

/-- The results of the uses on one thread. -/
def resultsOn (t : Thread) (uses : List (Thread × Use)) (rs : List (Except Fault Value)) :
    List (Except Fault Value) :=
  ((uses.zip rs).filter (·.1.1 = t)).map (·.2)

theorem resultsOn_cons_of_eq {r : Except Fault Value} {t' : Thread} (h : t' = t) :
    resultsOn t ((t', u) :: uses) (r :: rs) = r :: resultsOn t uses rs := by
  simp [resultsOn, h]

theorem resultsOn_cons_of_ne {r : Except Fault Value} {t' : Thread} (h : t' ≠ t) :
    resultsOn t ((t', u) :: uses) (r :: rs) = resultsOn t uses rs := by
  simp [resultsOn, h]

theorem ofOutcome_injective {r r' : Except Fault Value}
    (h : Control.ofOutcome r = Control.ofOutcome r') : r = r' := by
  cases r <;> cases r' <;> cases h <;> rfl

/-! ### One use -/

/-- Whether a session is ready for uses of the per-thread cache behind a target. -/
structure ReadyFor (target : Target) (id : Nat) (hint : Option String) (s : Session) : Prop where
  arises : s.Arises
  target : s.confinedAt target = some id
  hint : ∃ cd, s.confined[id]? = some cd ∧ cd.hint = hint
  free (t : Thread) : ∃ c, s.confinedCache id t = some c ∧ c.guard.isBorrowed = false

/-- A per-thread cache that nobody has used yet is ready for uses. -/
theorem readyFor_of_fresh (arises : s.Arises) (htarget : s.confinedAt target = some id)
    {cd : Confined} (found : s.confined[id]? = some cd) (fresh : cd.caches = ∅) :
    ReadyFor target id cd.hint s := by
  refine ⟨arises, htarget, ⟨cd, found, rfl⟩, fun t => ?_⟩
  exact ⟨_, Session.confinedCache_of_absent found (by rw [fresh]; rfl), rfl⟩

/-- An outcome that comes back to the frame of another thread is the end on this thread. -/
theorem path_thread {n : Machine} {r : Except Fault Value} {back : Thread}
    (control : n.control = .ofOutcome r) (stack : n.stack = [.thread back]) :
    Path (fun _ => True) [] n ⟨.ofOutcome r, [], { n.session with thread := back }⟩ := by
  cases r with
  | ok v => exact path_resume control stack
  | error f => exact path_unwind control stack

/-- A use on a thread comes to something that it may come to, and changes the part of this thread
only. -/
theorem ReadyFor.use (h : ReadyFor target id hint s) (sound : u.Sound target id)
    (hc : s.confinedCache id t = some c) :
    ∃ m r, Ends [] (load (.on t (u.program target)) s) m ∧ m.control = .ofOutcome r.1 ∧
      u.Comes t hint c r ∧ ReadyFor target id hint m.session ∧
      ∀ t', m.session.confinedCache id t' = if t' = t then some r.2 else s.confinedCache id t' := by
  have hm := h.arises (.on t (u.program target))
  let asked : Machine := ⟨.eval (u.program target), [.thread s.thread], { s with thread := t }⟩
  have hasked : Path (fun _ => True) [] (load (.on t (u.program target)) s) asked :=
    Path.eval rfl trivial rfl
  have hfree : c.guard.isBorrowed = false := by
    obtain ⟨c', hc', hfree⟩ := h.free t
    obtain rfl := Option.some.inj (hc.symm.trans hc')
    exact hfree
  have husing : asked.Using target id hint c :=
    ⟨hm.leads (hasked.leads (List.nil_suffix ..)),
      (Session.confinedAt_congr rfl rfl target).trans h.target, h.hint, hc, hfree⟩
  obtain ⟨r, hcomes, hyields⟩ := husing.comesToUse u sound rfl
  obtain ⟨n, hpath, hcontrol, hstack, hturned⟩ :=
    hyields.onto (rfl : asked.stack = [.thread s.thread])
  have hback := path_thread hcontrol hstack
  have hend := (hasked.trans hpath).trans hback
  have hleads := (hpath.trans hback).leads (List.nil_suffix ..)
  have hcaches (t' : Thread) : n.session.confinedCache id t' =
      if t' = t then some r.2 else s.confinedCache id t' := hturned.caches t'
  have hdone : Reachable ⟨.ofOutcome r.1, [], { n.session with thread := s.thread }⟩ :=
    husing.reachable.leads hleads
  obtain ⟨cd, found, hhint⟩ := h.hint
  obtain ⟨cd', found', -, hhint'⟩ := hleads.extends.confined found
  refine ⟨_, r, hend.ends_iff.mpr (.here rfl (isOutcome_ofOutcome _)), rfl, hcomes,
    ⟨?_, ?_, ?_, ?_⟩, hcaches⟩
  · exact hdone.arises ((outcome?_isSome_iff _).mpr ⟨rfl, isOutcome_ofOutcome _⟩)
  · exact (Session.confinedAt_congr rfl rfl target).trans hturned.target
  · exact ⟨cd', found', hhint'.trans hhint⟩
  · intro t'
    by_cases ht : t' = t
    · exact ⟨_, (hcaches t').trans (if_pos ht), by rw [hcomes.guard, hfree]⟩
    · obtain ⟨c', hc', hfree'⟩ := h.free t'
      exact ⟨c', ((hcaches t').trans (if_neg ht)).trans hc', hfree'⟩

/-! ### Uses in turn -/

theorem ReadyFor.exists_usedInTurn (h : ReadyFor target id hint s)
    (sound : ∀ x ∈ uses, x.2.Sound target id) : ∃ rs s₁, UsedInTurn target s uses rs s₁ := by
  induction uses generalizing s with
  | nil => exact ⟨[], s, .done s⟩
  | cons x uses ih =>
    obtain ⟨t, u⟩ := x
    obtain ⟨c, hc, -⟩ := h.free t
    obtain ⟨m, r, ends, result, -, hready, -⟩ := h.use (sound _ (.head _)) hc
    obtain ⟨rs, s₁, hrest⟩ := ih hready fun x hx => sound x (.tail _ hx)
    exact ⟨_, s₁, .use ends result hrest⟩

/-- **The uses on one thread come to the same when only they are made**, also of another cache, if
its part for this thread is alike. -/
theorem UsedInTurn.on_thread {c c' : StableCache} (h : UsedInTurn target s uses rs s₁)
    (h' : UsedInTurn target' s' (uses.filter (·.1 = t)) rs' s₂) (hs : ReadyFor target id hint s)
    (hs' : ReadyFor target' id' hint s') (hc : s.confinedCache id t = some c)
    (hc' : s'.confinedCache id' t = some c') (hcache : c.Alike L c')
    (alike : ∀ x ∈ uses, x.2.Alike L x.2) (sound : ∀ x ∈ uses, x.2.Sound target id)
    (sound' : ∀ x ∈ uses, x.2.Sound target' id') :
    List.Forall₂ (Outcome.Alike L) (resultsOn t uses rs) rs' := by
  -- on the uses of all threads; the run that has those on `t` alone waits while others are made
  induction h generalizing s' rs' c c' with
  | done s =>
    cases h'
    exact .nil
  | @use s s₁ t₁ u r m uses rs ends result rest ih =>
    have halike := fun x hx => alike x (.tail _ hx)
    have hsound := fun x hx => sound x (.tail _ hx)
    have hsound' := fun x hx => sound' x (.tail _ hx)
    obtain ⟨c₁, hc₁, -⟩ := hs.free t₁
    obtain ⟨m₁, q, ends₁, result₁, hcomes, hs₁, hcaches⟩ := hs.use (sound _ (.head _)) hc₁
    obtain rfl := ends.unique ends₁
    obtain rfl := ofOutcome_injective (result.symm.trans result₁)
    by_cases ht : t₁ = t
    · -- a use on the thread depends on the part of the thread alone
      subst ht
      obtain rfl := Option.some.inj (hc.symm.trans hc₁)
      rw [List.filter_cons_of_pos (by simp)] at h'
      rw [resultsOn_cons_of_eq rfl]
      cases h' with
      | use ends' result' rest' =>
        obtain ⟨m', q', ends₂, result₂, hcomes', hs₂, hcaches'⟩ := hs'.use (sound' _ (.head _)) hc'
        obtain rfl := ends'.unique ends₂
        obtain rfl := ofOutcome_injective (result'.symm.trans result₂)
        obtain ⟨houtcome, hcache'⟩ := (alike _ (.head _)).comes hcache hcomes hcomes'
        refine .cons houtcome ?_
        exact ih rest' hs₁ hs₂ ((hcaches t₁).trans (if_pos rfl)) ((hcaches' t₁).trans (if_pos rfl))
          hcache' halike hsound hsound'
    · -- and a use on another thread does not change it
      rw [List.filter_cons_of_neg (by simpa using ht)] at h'
      rw [resultsOn_cons_of_ne ht]
      have hsame := (hcaches t).trans (if_neg (Ne.symm ht))
      exact ih h' hs₁ hs' (hsame.trans hc) hc' hcache halike hsound hsound'

/-- **Threads do not interfere.** Uses of a new per-thread cache that are made in turn come to
results, and those on each thread to the results that they come to when only they are made, of a new
cache with the same name.  And whatever runs on one thread, and has no place of a part of another
one, leaves the values, marks and counts of all the parts of the others as they are. -/
theorem threads_do_not_interfere :
    (∀ {L : Likeness} {s s' : Session} {target target' : Target} {id id' : Nat} {cd cd' : Confined}
        {uses : List (Thread × Use)}, s.Arises → s'.Arises →
        s.confinedAt target = some id → s'.confinedAt target' = some id' →
        s.confined[id]? = some cd → s'.confined[id']? = some cd' →
        cd.caches = ∅ → cd'.caches = ∅ → cd'.label = cd.label → cd'.hint = cd.hint →
        (∀ x ∈ uses, x.2.Alike L x.2) → (∀ x ∈ uses, x.2.Sound target id) →
        (∀ x ∈ uses, x.2.Sound target' id') →
        (∃ rs s₁, UsedInTurn target s uses rs s₁) ∧
        ∀ rs s₁, UsedInTurn target s uses rs s₁ → ∀ t,
          (∃ rs' s₂, UsedInTurn target' s' (uses.filter (·.1 = t)) rs' s₂) ∧
          ∀ rs' s₂, UsedInTurn target' s' (uses.filter (·.1 = t)) rs' s₂ →
            List.Forall₂ (Outcome.Alike L) (resultsOn t uses rs) rs') ∧
    ∀ {m n : Machine} {p : Program} {t : Thread} {id : Nat} {c : StableCache},
      Reachable m → m.control = .eval p → p.Avoids m.session.foreign →
      m.session.CodeAvoids m.session.foreign →
      Path (fun n => n.session.thread = m.session.thread) m.stack m n → t ≠ m.session.thread →
      m.session.confinedCache id t = some c →
      ∃ c', n.session.confinedCache id t = some c' ∧ c'.slots = c.slots ∧ c'.pending = c.pending ∧
        c'.hits = c.hits ∧ c'.misses = c.misses := by
  constructor
  · intro L s s' target target' id id' cd cd' uses hs hs' htarget htarget' found found' fresh fresh'
      hlabel hhint alike sound sound'
    have hready := readyFor_of_fresh hs htarget found fresh
    have hready' := hhint ▸ readyFor_of_fresh hs' htarget' found' fresh'
    refine ⟨hready.exists_usedInTurn sound, fun rs s₁ hused t => ?_⟩
    have hcache : cd'.newCache t = cd.newCache t := by
      rw [Confined.newCache, Confined.newCache, Confined.labelOn, Confined.labelOn, hlabel]
    have hc := Session.confinedCache_of_absent (t := t) found (by rw [fresh]; rfl)
    have hc' := Session.confinedCache_of_absent (t := t) found' (by rw [fresh']; rfl)
    constructor
    · exact hready'.exists_usedInTurn fun x hx => sound' x (List.mem_filter.mp hx).1
    · intro rs' s₂ halone
      exact hused.on_thread halone hready hready' hc (hc'.trans (congrArg some hcache))
        (.of_empty _) alike sound sound'
  · intro m n p t id c hm control avoids code hpath ht hc
    have hmachine : m.Avoids m.session.foreign m.stack :=
      ⟨fun q hq => by cases control.symm.trans hq; exact avoids, [], rfl, fun _ h => nomatch h⟩
    obtain ⟨c', hc', hsame⟩ := hpath.sameContents hm hmachine code ht hc
    exact ⟨c', hc', hsame.slots, hsame.pending, hsame.hits, hsame.misses⟩

/-- Two threads populate the same key, one with a new tuple, which the other one cannot make. -/
def usesOnTwoThreads : List (Thread × Use) :=
  [("a", .populate (.text "k") fun key => .other (.perform (.memory (.newTuple [key])))
      (Set.range fun memory : Memory => (memory.run (.newTuple [key])).1)),
    ("b", .retrieve (.text "k")),
    ("b", .populate (.text "k") fun _ =>
      .other (.fail { kind := .badValue }) {.error (.thrown { kind := .badValue })}),
    ("a", .populate (.text "j") fun _ =>
      .bind (.retrieve (.text "k")) fun v => .other (.done v) {.ok v}),
    ("b", .isPopulated (.text "k")),
    ("a", .retrieve (.text "j"))]

theorem alike_usesOnTwoThreads : ∀ x ∈ usesOnTwoThreads, x.2.Alike .byKey x.2 := by
  intro x hx
  simp only [usesOnTwoThreads, List.mem_cons, List.not_mem_nil, or_false] at hx
  obtain rfl | rfl | rfl | rfl | rfl | rfl := hx
  · refine .populate (.other ?_)
    rintro _ ⟨memory, rfl⟩ _ ⟨memory', rfl⟩
    exact .ok rfl
  · exact .retrieve _
  · refine .populate (.other ?_)
    rintro _ rfl _ rfl
    exact .error _
  · refine .populate (.bind (.retrieve _) fun v v' h => .other ?_)
    rintro _ rfl _ rfl
    exact .ok h
  · exact .isPopulated _
  · exact .retrieve _

theorem sound_usesOnTwoThreads (target : Target) (id : Nat) :
    ∀ x ∈ usesOnTwoThreads, x.2.Sound target id := by
  intro x hx
  simp only [usesOnTwoThreads, List.mem_cons, List.not_mem_nil, or_false] at hx
  obtain rfl | rfl | rfl | rfl | rfl | rfl := hx
  · exact fun _ => Program.comesTo_memory _
  · trivial
  · exact fun _ => Program.comesTo_fail _
  · exact fun _ => ⟨trivial, fun v => Program.comesTo_done v⟩
  · trivial
  · trivial

/-- A session in which one thread has populated a key of the session's own per-thread cache. -/
def populatedOnOne : Machine :=
  (load (.on "a" (.reach .common fun place =>
    .populate place (.text "k") fun _ => .done (.int 1))) (.start .events [])).run 10

/-- Another thread is about to populate the same key. -/
def populatingOnOther : Machine :=
  load (.reach .common fun place => .populate place (.text "k") fun _ => .done (.int 2))
    populatedOnOne.session

theorem threads_do_not_interfere_on_two :
    (Session.start .events []).Arises ∧
      (∀ x ∈ usesOnTwoThreads, x.2.Alike .byKey x.2 ∧ x.2.Sound .common 0) ∧
      (∃ rs s₁ rs' s₂, UsedInTurn .common (.start .events []) usesOnTwoThreads rs s₁ ∧
        UsedInTurn .common (.start .events []) (usesOnTwoThreads.filter (·.1 = "b")) rs' s₂ ∧
        List.Forall₂ (Outcome.Alike .byKey) (resultsOn "b" usesOnTwoThreads rs) rs') ∧
      Reachable populatingOnOther ∧
      Path (fun n => n.session.thread = "main") [] populatingOnOther (populatingOnOther.run 8) ∧
      (populatingOnOther.run 8).control = .give .null ∧
      ∃ c c', populatingOnOther.session.confinedCache 0 "a" = some c ∧
        c.slots.get? (.ofAtoms [.text "k"]) = some (.int 1) ∧
        (populatingOnOther.run 8).session.confinedCache 0 "a" = some c' ∧ c'.slots = c.slots := by
  have hs := Session.arises_start .events []
  have halike := alike_usesOnTwoThreads
  have hsound := sound_usesOnTwoThreads .common 0
  obtain ⟨⟨rs, s₁, hused⟩, hsame⟩ := threads_do_not_interfere.1 hs hs
    (rfl : (Session.start .events []).confinedAt .common = some 0)
    (rfl : (Session.start .events []).confinedAt .common = some 0) rfl rfl rfl rfl rfl rfl halike
    hsound hsound
  obtain ⟨⟨rs', s₂, halone⟩, hresults⟩ := hsame rs s₁ hused "b"
  have hm : Reachable populatingOnOther :=
    ((Reachable.start ..).leads (leads_run ..)).move (.next rfl _)
  have hpath : Path (fun n => n.session.thread = "main") [] populatingOnOther
      (populatingOnOther.run 8) := .of_run 8 (by decide)
  obtain ⟨c', hc', hslots, -⟩ := threads_do_not_interfere.2 hm rfl
    (.reach _ fun _ hplace => .populate hplace _ fun _ => .done _)
    (fun n run h => nomatch h) hpath (by decide : "a" ≠ "main")
    (rfl : populatingOnOther.session.confinedCache 0 "a" = some _)
  exact ⟨hs, fun x hx => ⟨halike x hx, hsound x hx⟩,
    ⟨rs, s₁, rs', s₂, hused, halone, hresults rs' s₂ halone⟩, hm, hpath, rfl,
    _, c', rfl, rfl, hc', hslots⟩

end Machine

end CheckedMemo
