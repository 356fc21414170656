import CheckedMemo.Proofs.Exclusion
import CheckedMemo.Proofs.Twins

/-!
# One contract for stable caches and value caches

A stable cache and a value cache that are made at the same point of a session, and used in the same
way from then on, answer alike.  A session that serves one program after the other is followed from
its start to any point (`Serving`): each point that the session with the stable cache comes to has a
point of the other session that is level with it (`Serving.forward`), and the other session comes to
no further points but those at which it hands over what the stable cache has handed over already
(`Serving.backward`).

The main statement is `same_contract`.
-/

namespace CheckedMemo.Machine

variable {id : Nat} {c : StableCache} {m m' n n' : Machine} {p : Program} {programs : List Program}
  {made : List Invocation} {ends ends' : List Machine}

/-! ### Sessions that serve programs -/

/-- The session goes from `m` to `n`: the program at work takes its steps, and when it has ended the
first of `programs` is loaded, and so on.  On the way the cache `id` calls the computations `made`,
and programs end at `ends`. -/
inductive Serving (id : Nat) :
    Machine → List Program → List Invocation → List Machine → Machine → Prop
  | refl (m : Machine) (programs : List Program) : Serving id m programs [] [] m
  | step {m n : Machine} {programs : List Program} {made made' : List Invocation}
    {ends : List Machine} (h : m.outcome? = none) (makes : Makes id m made)
    (rest : Serving id m.step programs made' ends n) : Serving id m programs (made ++ made') ends n
  | next {m n : Machine} {p : Program} {programs : List Program} {made : List Invocation}
    {ends : List Machine} (h : m.outcome?.isSome = true)
    (rest : Serving id (load p m.session) programs made ends n) :
    Serving id m (p :: programs) made (m :: ends) n

/-- All the way, the stable cache is used like one that could as well be a value cache. -/
def UsedProperly (id : Nat) (m : Machine) (programs : List Program) : Prop :=
  ∀ made ends n, Serving id m programs made ends n → n.isProper id = true

namespace UsedProperly

theorem here (h : UsedProperly id m programs) : m.isProper id = true := h _ _ _ (.refl m programs)

theorem step (h : UsedProperly id m programs) (hm : m.outcome? = none) (makes : Makes id m made) :
    UsedProperly id m.step programs :=
  fun _ _ _ hn => h _ _ _ (.step hm makes hn)

theorem next (h : UsedProperly id m (p :: programs)) (hm : m.outcome?.isSome = true) :
    UsedProperly id (load p m.session) programs :=
  fun _ _ _ hn => h _ _ _ (.next hm hn)

/-- Whether a cache is used properly until all programs have ended, if they do within `fuel`
steps. -/
def check (id : Nat) : Nat → Machine → List Program → Bool
  | 0, _, _ => false
  | fuel + 1, m, programs =>
    m.isProper id &&
      if m.outcome?.isSome then
        match programs with
        | [] => true
        | p :: programs => check id fuel (load p m.session) programs
      else check id fuel m.step programs

theorem of_check (fuel : Nat) (h : check id fuel m programs = true) :
    UsedProperly id m programs := by
  intro made ends n hn
  induction hn generalizing fuel with
  | refl m programs =>
    cases fuel with
    | zero => cases h
    | succ fuel => exact ((Bool.and_eq_true ..).mp h).1
  | step hm _ _ ih =>
    cases fuel with
    | zero => cases h
    | succ fuel =>
      unfold check at h
      rw [hm] at h
      exact ih fuel ((Bool.and_eq_true ..).mp h).2
  | next hm _ ih =>
    cases fuel with
    | zero => cases h
    | succ fuel =>
      unfold check at h
      rw [if_pos hm] at h
      exact ih fuel ((Bool.and_eq_true ..).mp h).2

end UsedProperly

/-- Where programs end that take at most `fuel` steps each, and where the last of them is then. -/
def served (fuel : Nat) : Machine → List Program → List Machine × Machine
  | m, [] => ([], m.run fuel)
  | m, p :: programs =>
    let rest := served fuel (load p (m.run fuel).session) programs
    (m.run fuel :: rest.1, rest.2)

theorem Makes.exists (id : Nat) (m : Machine) : ∃ made, Makes id m made := by
  by_cases h : ∃ k, Starts m m.step ⟨id, k⟩
  · obtain ⟨k, starts⟩ := h
    obtain ⟨place, key, compute, control, -⟩ := starts.1
    exact ⟨_, .call control starts⟩
  · exact ⟨[], .none (not_exists.mp h)⟩

theorem Serving.run (fuel : Nat) (h : Serving id (m.run fuel) programs made ends n) :
    ∃ made', Serving id m programs made' ends n := by
  induction fuel generalizing m with
  | zero => exact ⟨made, h⟩
  | succ fuel ih =>
    rw [Machine.run] at h
    split at h
    · exact ⟨made, h⟩
    · rename_i hm
      obtain ⟨made', h'⟩ := ih h
      obtain ⟨made₁, hmade⟩ := Makes.exists id m
      exact ⟨made₁ ++ made', .step (Option.not_isSome_iff_eq_none.mp hm) hmade h'⟩

theorem Serving.of_served (id fuel : Nat) (m : Machine) (programs : List Program)
    (h : (served fuel m programs).1.all (·.outcome?.isSome) = true) :
    ∃ made, Serving id m programs made (served fuel m programs).1 (served fuel m programs).2 := by
  induction programs generalizing m with
  | nil => exact Serving.run fuel (.refl (m.run fuel) [])
  | cons p programs ih =>
    rw [served, List.all_cons, Bool.and_eq_true] at h
    obtain ⟨made, hrest⟩ := ih _ h.2
    exact Serving.run fuel (.next h.1 hrest)

/-! ### What is alike -/

/-- The sessions are the same, journals included, but for the cache `id`.  It is a stable cache in
the first and a value cache in the second, with the same label, the same stored values and the same
counts of hits and misses. -/
def Alike (id : Nat) (m n : Machine) : Prop :=
  ∃ c c', m.session.resources[id]? = some (.stable c) ∧
    n.session.resources[id]? = some (.value c') ∧ n.session = m.session.setValue id c' ∧
    c'.label = c.label ∧ c'.slots = c.slots ∧ c'.hits = c.hits ∧ c'.misses = c.misses

/-- The machines are alike and at the same point: they do the same next, for the same frames, and
if their programs have ended, they have the same outcome.  When a call has been made, what they do
next is to go on with its result. -/
structure Agrees (id : Nat) (m n : Machine) : Prop where
  alike : Alike id m n
  control : n.control = m.control
  stack : n.stack = m.stack.flatMap (Frame.twin id)
  outcome : n.outcome? = m.outcome?

/-- The machines are alike.  The first has the result of a call already, and the second is about to
copy it or to leave a view before it goes on with it. -/
structure HandsOver (id : Nat) (m n : Machine) : Prop where
  alike : Alike id m n
  result : m.control.isOutcome = true
  control : n.control = m.control ∨ ∃ v, m.control = .give v ∧ n.control = .eval (.copy v)
  stack : ∃ mode, n.stack = .release id mode :: m.stack.flatMap (Frame.twin id)

theorem Level.outcome?_eq (hl : Level id c m n) : n.outcome? = m.outcome? := by
  have hcontrol := hl.control
  have hstack := hl.stack
  obtain ⟨control, stack, s⟩ := m
  obtain ⟨control', stack', t⟩ := n
  obtain rfl : control' = control := hcontrol
  obtain rfl : stack' = stack.flatMap (Frame.twin id) := hstack
  cases stack with
  | nil => rfl
  | cons frame rest =>
    obtain ⟨twin, twins, htwin⟩ := List.exists_cons_of_ne_nil (Frame.twin_ne_nil id frame)
    have hstack : (frame :: rest).flatMap (Frame.twin id) =
        twin :: (twins ++ rest.flatMap (Frame.twin id)) := by
      rw [List.flatMap_cons, htwin]
      rfl
    exact (outcome?_eq_none_of_stack hstack).trans (outcome?_eq_none_of_stack rfl).symm

theorem Level.agrees (hl : Level id c m n) (h : Steady id c m.stack m.session) : Agrees id m n :=
  ⟨⟨c, _, h.found, hl.found h, hl.session, rfl, rfl, rfl, rfl⟩, hl.control, hl.stack,
    hl.outcome?_eq⟩

theorem outcomes_eq (h : List.Forall₂ (Agrees id) ends ends') :
    ends'.map outcome? = ends.map outcome? := by
  induction h with
  | nil => rfl
  | cons hagrees _ ih => rw [List.map_cons, List.map_cons, hagrees.outcome, ih]

theorem Behind.handsOver (hb : Behind id c m n) (h : Steady id c m.stack m.session) :
    HandsOver id m n := by
  obtain ⟨mode, hstack, hsession⟩ := hb.held
  have found' : n.session.resources[id]? = some (.value ((c.twin false).acquire mode)) := by
    rw [hsession]
    exact h.found_set _
  refine ⟨⟨c, _, h.found, found', hsession, ?_, rfl, rfl, rfl⟩, hb.outcome, ?_, mode, hstack⟩
  · cases mode <;> rfl
  · rcases hb.control with hcontrol | ⟨v, -, hgive, hcopy⟩
    · exact .inl hcontrol
    · exact .inr ⟨v, hgive, hcopy⟩

/-! ### From step to step -/

/-- The next program finds the machines level. -/
theorem Level.next (hl : Level id c m n) (h : Steady id c m.stack m.session)
    (hm : m.outcome?.isSome = true) (p : Program) :
    Steady id c (load p m.session).stack (load p m.session).session ∧
      Level id c (load p m.session) (load p n.session) := by
  obtain ⟨hstack, -⟩ := (outcome?_isSome_iff m).mp hm
  have hsession := hl.session
  rw [busy, hstack] at hsession
  rw [hstack] at h
  exact ⟨h, rfl, rfl, hsession⟩

/-- While the first machine waits, the second catches up with it. -/
theorem Behind.serving (hb : Behind id c m n) (h : Steady id c m.stack m.session) :
    ∃ n', Level id c m n' ∧ ∀ programs made ends k, Serving id n' programs made ends k →
      Serving id n programs made ends k := by
  have hstep {n : Machine} (hb : Behind id c m n) (programs : List Program)
      (made : List Invocation) (ends : List Machine) (k : Machine)
      (hk : Serving id n.step programs made ends k) : Serving id n programs made ends k :=
    .step hb.outcome?_eq_none hb.silent hk
  rcases hb.advance h with hl | ⟨hb', hcontrol⟩
  · exact ⟨n.step, hl, hstep hb⟩
  · -- the value has been copied, and only the view is left to be released
    exact ⟨n.step.step, hb'.leave h hcontrol, fun programs made ends k hk =>
      hstep hb programs made ends k (hstep hb' programs made ends k hk)⟩

theorem Serving.forward (hn : Serving id m programs made ends m')
    (h : Steady id c m.stack m.session) (hl : Level id c m n)
    (proper : UsedProperly id m programs) :
    ∃ ends' n', Serving id n programs made ends' n' ∧ List.Forall₂ (Agrees id) ends ends' ∧
      ∃ c', Steady id c' m'.stack m'.session ∧ Level id c' m' n' := by
  induction hn generalizing c n with
  | refl m programs => exact ⟨[], n, .refl n programs, .nil, c, h, hl⟩
  | step hm makes _ ih =>
    obtain ⟨⟨c', h', hfollows⟩, made', hmade, hmade'⟩ := hl.advance h hm proper.here
    obtain rfl := makes.unique hmade
    have hn : n.outcome? = none := hl.outcome?_eq.trans hm
    rcases hfollows with hl' | hb
    · obtain ⟨ends', n', hserving, hrest⟩ := ih h' hl' (proper.step hm makes)
      exact ⟨ends', n', .step hn hmade' hserving, hrest⟩
    · obtain ⟨n₁, hl', hcaught⟩ := hb.serving h'
      obtain ⟨ends', n', hserving, hrest⟩ := ih h' hl' (proper.step hm makes)
      exact ⟨ends', n', .step hn hmade' (hcaught _ _ _ _ hserving), hrest⟩
  | next hm _ ih =>
    obtain ⟨h', hl'⟩ := hl.next h hm _
    obtain ⟨ends', n', hserving, hends, hrest⟩ := ih h' hl' (proper.next hm)
    exact ⟨n :: ends', n', .next (hl.outcome?_eq ▸ hm) hserving, .cons (hl.agrees h) hends, hrest⟩

theorem Serving.backward (hn : Serving id n programs made ends' n')
    (h : Steady id c m.stack m.session) (hmn : Level id c m n ∨ Behind id c m n)
    (proper : UsedProperly id m programs) :
    ∃ ends m', Serving id m programs made ends m' ∧ List.Forall₂ (Agrees id) ends ends' ∧
      ∃ c', Steady id c' m'.stack m'.session ∧ (Level id c' m' n' ∨ Behind id c' m' n') := by
  induction hn generalizing c m with
  | refl n programs => exact ⟨[], m, .refl m programs, .nil, c, h, hmn⟩
  | @step n n' programs made made' ends' hn makes _ ih =>
    rcases hmn with hl | hb
    · have hm : m.outcome? = none := hl.outcome?_eq.symm.trans hn
      obtain ⟨⟨c', h', hfollows⟩, made₁, hmade, hmade'⟩ := hl.advance h hm proper.here
      obtain rfl := makes.unique hmade'
      obtain ⟨ends, m', hserving, hrest⟩ := ih h' hfollows (proper.step hm hmade)
      exact ⟨ends, m', .step hm hmade hserving, hrest⟩
    · obtain rfl := makes.unique hb.silent
      have hmn : Level id c m n.step ∨ Behind id c m n.step :=
        (hb.advance h).imp_right And.left
      exact ih h hmn proper
  | next hn _ ih =>
    rcases hmn with hl | hb
    · have hm : m.outcome?.isSome = true := hl.outcome?_eq ▸ hn
      obtain ⟨h', hl'⟩ := hl.next h hm _
      obtain ⟨ends, m', hserving, hends, hrest⟩ := ih h' (.inl hl') (proper.next hm)
      exact ⟨m :: ends, m', .next hm hserving, .cons (hl.agrees h) hends, hrest⟩
    · rw [hb.outcome?_eq_none] at hn
      cases hn

/-! ### New caches -/

/-- What a frame is about is there. -/
theorem Reachable.exists_of_frame (hm : Reachable m) {frame : Frame} (hframe : frame ∈ m.stack)
    (hid : frame.resource? = some id) : ∃ r, m.session.resources[id]? = some r := by
  cases frame with
  | release i mode =>
    obtain rfl : i = id := Option.some.inj hid
    exact hm.exists_of_release hframe
  | computing i key k =>
    obtain rfl : i = id := Option.some.inj hid
    obtain ⟨-, c, found⟩ := hm.framed.hosted hframe
    exact ⟨_, found⟩
  | storing i k =>
    obtain rfl : i = id := Option.some.inj hid
    obtain ⟨c, found⟩ := hm.framed.hosted hframe
    exact ⟨_, found⟩
  | _ => cases hid

/-- What a named view is open of is there. -/
theorem Reachable.exists_of_view (hm : Reachable m) {name : String} {v : OpenView}
    (hv : m.session.views.get? name = some v) : ∃ r, m.session.resources[v.resource]? = some r := by
  have hmem : v ∈ m.session.views.values :=
    (Table.mem_values_iff hm.accounted.distinct v).mpr ⟨name, hv⟩
  exact hm.exists_of_held (Nat.add_pos_right _ (List.count_pos_iff.mpr hmem))

theorem not_exists_size (s : Session) : ¬∃ r, s.resources[s.resources.size]? = some r := by
  rintro ⟨r, found⟩
  rw [Array.getElem?_size] at found
  cases found

theorem setIfInBounds_push_size (resources : Array Resource) (r r' : Resource) :
    (resources.push r).setIfInBounds resources.size r' = resources.push r' := by
  have hlt : resources.size < (resources.push r).size := by
    rw [Array.size_push]
    exact Nat.lt_succ_self _
  rw [Array.setIfInBounds, dif_pos hlt, Array.set_push, dif_neg (Nat.lt_irrefl _)]

section

variable {name label : String}

/-- The number that a new cache gets. -/
def fresh (m : Machine) : Nat := m.session.resources.size

/-- The machine that makes an object next, and goes on like `m` then. -/
def making (c : Creation) (m : Machine) : Machine :=
  { m with control := .eval (.perform (.create c)) }

/-- The machine that has just made a stable cache. -/
def withStable (name label : String) (m : Machine) : Machine :=
  (m.making (.stable name (some label))).step

/-- The machine that has just made a value cache. -/
def withValue (name label : String) (m : Machine) : Machine :=
  (m.making (.value name (some label))).step

/-- After a stable cache has been made, or a value cache instead, the machines are level. -/
theorem Reachable.level_making (hm : Reachable (m.making (.stable name (some label)))) :
    Steady m.fresh { guard := { label } } (m.withStable name label).stack
        (m.withStable name label).session ∧
      Level m.fresh { guard := { label } } (m.withStable name label) (m.withValue name label) := by
  have hframes : ∀ frame ∈ m.stack, frame.resource? ≠ some m.fresh :=
    fun frame hframe hid => not_exists_size m.session (hm.exists_of_frame hframe hid)
  have hcomputes : ∀ frame ∈ m.stack, ¬frame.computes m.fresh = true :=
    fun frame hframe => Frame.not_computes_of_resource?_ne (hframes frame hframe)
  refine ⟨⟨?_, ?_, rfl, ?_, ?_, ?_, ?_, ?_⟩, rfl, ?_, ?_⟩
  · exact Array.getElem?_push_size
  · intro name' v hv hsize
    obtain ⟨r, found⟩ := hm.exists_of_view hv
    rw [hsize] at found
    exact not_exists_size m.session ⟨r, found⟩
  · exact fun k v hv => nomatch hv
  · exact fun k hk => absurd rfl hk
  · exact fun key k hmem => absurd rfl (hframes _ hmem)
  · exact (List.countP_eq_zero.mpr hcomputes).trans_le (Nat.zero_le 1)
  · exact fun frame hframe hid => absurd hid (hframes frame hframe)
  · have htwin := flatMap_twin_append hframes []
    rw [List.append_nil, List.flatMap_nil, List.append_nil] at htwin
    exact htwin.symm
  · have hidle : (m.withStable name label).busy m.fresh = false :=
      List.any_eq_false.mpr hcomputes
    rw [hidle]
    exact congrArg
      (fun resources => { m.session with
        resources, names := m.session.names.insert name (.resource m.fresh) })
      (setIfInBounds_push_size m.session.resources ..).symm

/-- **A stable cache and a value cache keep the same contract.**  Somewhere in a session a stable
cache is made, or a value cache with the same label instead.  What is run then uses the cache
properly: it requests, peeks, tests for keys and asks for the size and the counts, does none of this
while the cache computes, and computes values that are their own copies.  Each point that the
session with the stable cache comes to is one of the session with the value cache: up to it the same
computations have been called for the same keys in the same order, the programs have ended in the
same way, and the results of calls, the journal, the stored values and the counts are the same.  And
the session with the value cache comes to no other points, but for those at which it is about to
hand over a result that the stable cache has given already. -/
theorem same_contract (hm : Reachable (m.making (.stable name (some label))))
    (programs : List Program) (proper : UsedProperly m.fresh (m.withStable name label) programs) :
    (∀ made ends n, Serving m.fresh (m.withStable name label) programs made ends n →
      ∃ ends' n', Serving m.fresh (m.withValue name label) programs made ends' n' ∧
        List.Forall₂ (Agrees m.fresh) ends ends' ∧ Agrees m.fresh n n') ∧
    ∀ made ends' n', Serving m.fresh (m.withValue name label) programs made ends' n' →
      ∃ ends n, Serving m.fresh (m.withStable name label) programs made ends n ∧
        List.Forall₂ (Agrees m.fresh) ends ends' ∧
        (Agrees m.fresh n n' ∨ HandsOver m.fresh n n') := by
  obtain ⟨hsteady, hlevel⟩ := hm.level_making
  constructor
  · intro made ends n hn
    obtain ⟨ends', n', hn', hends, c, h, hl⟩ := hn.forward hsteady hlevel proper
    exact ⟨ends', n', hn', hends, hl.agrees h⟩
  · intro made ends' n' hn'
    obtain ⟨ends, n, hn, hends, c, h, hl | hb⟩ := hn'.backward hsteady (.inl hlevel) proper
    · exact ⟨ends, n, hn, hends, .inl (hl.agrees h)⟩
    · exact ⟨ends, n, hn, hends, .inr (hb.handsOver h)⟩

end

/-- Programs that ask the cache `numbers`: for a new key, for one whose computation fails, for a
list, which has no key, for what it has, and for what it does not have. -/
def lookups : List Program :=
  [.reach (.named "numbers") fun place => .get place (.text "k") fun _ => .done (.int 1),
    .reach (.named "numbers") fun place => .get place (.int 2) fun _ => .fail { kind := .failure },
    .reach (.named "numbers") fun place => .get place (.list 0) fun _ => .done (.int 3),
    .reach (.named "numbers") fun place => .get place (.text "k") fun _ => .done (.int 4),
    .reach (.named "numbers") fun place => .peek place (.text "k"),
    .reach (.named "numbers") fun place => .contains place (.int 2)]

/-- The machine that is about to make the cache `numbers`. -/
def makingNumbers : Machine :=
  load (.perform (.create (.stable "numbers" (some "n")))) (.start .events [])

theorem same_contract_lookups :
    Reachable (makingNumbers.making (.stable "numbers" (some "n"))) ∧
      UsedProperly 0 (makingNumbers.withStable "numbers" "n") lookups ∧
      ∃ made ends' n', Serving 0 (makingNumbers.withValue "numbers" "n") lookups made ends' n' ∧
        ends'.map outcome? = [some (.ok .null), some (.ok (.int 1)),
          some (.error (.thrown { kind := .failure })), some (.error (.unhashable .list)),
          some (.ok (.int 1)), some (.ok (.int 1))] ∧
        n'.outcome? = some (.ok (.bool false)) ∧
        ∃ c, n'.session.resources[0]? = some (.value c) ∧ c.hits = 1 ∧ c.misses = 1 := by
  have hm : Reachable (makingNumbers.making (.stable "numbers" (some "n"))) := .start ..
  have proper : UsedProperly 0 (makingNumbers.withStable "numbers" "n") lookups :=
    .of_check 40 rfl
  obtain ⟨made, hn⟩ :=
    Serving.of_served 0 10 (makingNumbers.withStable "numbers" "n") lookups rfl
  obtain ⟨hforward, -⟩ := same_contract hm lookups proper
  obtain ⟨ends', n', hn', hends, ⟨c, c', found, found', -, -, -, hhits, hmisses⟩, -, -, houtcome⟩ :=
    hforward made _ _ hn
  cases found
  exact ⟨hm, proper, made, ends', n', hn', outcomes_eq hends, houtcome, c', found', hhits, hmisses⟩

end CheckedMemo.Machine
