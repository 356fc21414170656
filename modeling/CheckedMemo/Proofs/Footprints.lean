import CheckedMemo.Proofs.Paths
import CheckedMemo.Proofs.ThreadCaches

/-!
# What a program can get at

A program gets at a cache by looking its target up, or through a place that it was given.  One that
avoids some caches has no place of theirs (`Program.Avoids`), so it comes to them only by a target.
No target stands for the part that another thread has in a per-thread cache.  So what runs on one
thread, with no place of the parts of the others, leaves their contents alone (`Path.sameContents`).
-/

namespace CheckedMemo

variable {F : Set Nat}

/-! ### Programs that avoid some caches -/

/-- Whether a program asks none of the caches with the numbers `F`, provided that no target which it
looks up is found among them. -/
inductive Program.Avoids (F : Set Nat) : Program → Prop where
  | done (value : Value) : Avoids F (.done value)
  | fail (failure : Thrown) : Avoids F (.fail failure)
  | perform (command : Command) : Avoids F (.perform command)
  | bind {first : Program} {next : Value → Program} (hfirst : Avoids F first)
    (hnext : ∀ v, Avoids F (next v)) : Avoids F (.bind first next)
  | attempt {body : Program} {handler : Fault → Program} (hbody : Avoids F body) (kinds : List Kind)
    (hhandler : ∀ f, Avoids F (handler f)) : Avoids F (.attempt body kinds handler)
  | on (thread : Thread) {body : Program} (hbody : Avoids F body) : Avoids F (.on thread body)
  | timed (label : String) (enabled : Option Bool) {body : Program} (hbody : Avoids F body) :
    Avoids F (.timed label enabled body)
  | reach (target : Target) {next : Place → Program}
    (hnext : ∀ place, place.id ∉ F → Avoids F (next place)) : Avoids F (.reach target next)
  | view (place : Place) (mode : Mode) (key : Value) {body : Value → Program}
    (hbody : ∀ v, Avoids F (body v)) : Avoids F (.view place mode key body)
  | get {place : Place} (hplace : place.id ∉ F) (key : Value) {compute : Value → Program}
    (hcompute : ∀ v, Avoids F (compute v)) : Avoids F (.get place key compute)
  | peek (place : Place) (key : Value) : Avoids F (.peek place key)
  | copy (value : Value) : Avoids F (.copy value)
  | store {body : Call → Program} {next : Nat → Program} (hbody : ∀ call, Avoids F (body call))
    (hnext : ∀ code, Avoids F (next code)) : Avoids F (.store body next)
  | locate (source : Source) {next : Nat → Program} (hnext : ∀ code, Avoids F (next code)) :
    Avoids F (.locate source next)
  | invoke (code : Nat) (call : Call) : Avoids F (.invoke code call)
  | resolve (override providers : String) {next : Nat → Nat → Program}
    (hnext : ∀ id table, Avoids F (next id table)) : Avoids F (.resolve override providers next)
  | fetch (override table : Nat) (call : Call) : Avoids F (.fetch override table call)

namespace Program.Avoids

theorem andThen {first second : Program} (h : first.Avoids F) (h' : second.Avoids F) :
    (Program.andThen first second).Avoids F := .bind h fun _ => h'

theorem branch {test yes no : Program} (h : test.Avoids F) (hyes : yes.Avoids F)
    (hno : no.Avoids F) : (Program.branch test yes no).Avoids F := by
  refine .bind h fun v => ?_
  split
  · exact hyes
  · exact hno

theorem populate {place : Place} (hplace : place.id ∉ F) (key : Value) {compute : Value → Program}
    (hcompute : ∀ v, (compute v).Avoids F) : (Program.populate place key compute).Avoids F :=
  .andThen (.get hplace key hcompute) (.done .null)

/-- A hook has no places but those that it looks up itself. -/
theorem hook (o : Override) (id behind : Nat) (call : Call) : (o.hook id behind call).Avoids F := by
  have hextraction : (o.extraction call).Avoids F := by
    refine .bind (.perform _) fun v => ?_
    split <;> exact .timed _ _ (.invoke ..)
  have hcapture : (o.capture id call).Avoids F :=
    .reach _ fun place hplace => .branch (.perform _) (.done _)
      (.bind hextraction fun _ => .populate hplace _ fun _ => .done _)
  exact .andThen hcapture (.invoke ..)

theorem fetching (o : Override) (id table : Nat) (call : Call) : (o.fetch id table call).Avoids F :=
  .reach _ fun _ _ => .andThen
    (.branch (.perform _) (.done _) (.locate _ fun _ => .invoke ..)) (.perform _)

end Program.Avoids

/-- Whether what a frame goes on with asks none of the caches `F`. -/
def Frame.Avoids (F : Set Nat) : Frame → Prop
  | .bind next => ∀ v, (next v).Avoids F
  | .attempt _ handler => ∀ f, (handler f).Avoids F
  | .computing id _ _ => id ∉ F
  | .thread _ | .timer _ | .release .. | .storing .. => True

/-- Whether stored code asks none of the caches `F`. -/
def Session.CodeAvoids (F : Set Nat) (s : Session) : Prop :=
  ∀ (n : Nat) (run : Call → Program), s.code[n]? = some (.body run) → ∀ call, (run call).Avoids F

namespace Machine

variable {base stack : List Frame} {m m' n : Machine} {s : Session}

/-- Whether what is at work on top of `base` asks none of the caches `F`. -/
structure Avoids (F : Set Nat) (base : List Frame) (m : Machine) : Prop where
  control (p : Program) (h : m.control = .eval p) : p.Avoids F
  frames : ∃ above, m.stack = above ++ base ∧ ∀ frame ∈ above, frame.Avoids F

namespace Avoids

theorem of_isOutcome (hc : m.control.isOutcome = true) (hs : m.stack = base) : m.Avoids F base := by
  refine ⟨fun p h => ?_, [], hs, fun _ hmem => nomatch hmem⟩
  rw [h] at hc
  cases hc

theorem of_eval {p : Program} (h : p.Avoids F) : (⟨.eval p, base, s⟩ : Machine).Avoids F base := by
  refine ⟨fun q hq => ?_, [], rfl, fun _ hmem => nomatch hmem⟩
  cases hq
  exact h

theorem of_frame {p : Program} {frame : Frame} (h : p.Avoids F) (hframe : frame.Avoids F) :
    (⟨.eval p, frame :: base, s⟩ : Machine).Avoids F base := by
  refine ⟨fun q hq => ?_, [frame], rfl, fun f hf => ?_⟩
  · cases hq
    exact h
  · rw [List.mem_singleton.mp hf]
    exact hframe

/-- What avoids the caches on top of frames that avoid them avoids them on top of what is below. -/
theorem lower (above : List Frame) (h : m.Avoids F (above ++ base))
    (habove : ∀ frame ∈ above, frame.Avoids F) : m.Avoids F base := by
  obtain ⟨control, top, hs, htop⟩ := h
  refine ⟨control, top ++ above, by rw [hs, List.append_assoc], fun frame hframe => ?_⟩
  rcases List.mem_append.mp hframe with hframe | hframe
  · exact htop frame hframe
  · exact habove frame hframe

end Avoids

/-! ### One step -/

theorem avoids_refuse (f : Fault) : (refuse f stack s).Avoids F stack := .of_isOutcome rfl rfl

theorem avoids_reply (r : Except Fault Value × Session) : (reply stack r).Avoids F stack := by
  obtain ⟨_ | v, s⟩ := r <;> exact .of_isOutcome rfl rfl

theorem avoids_copy (v : Value) : (copy v stack s).Avoids F stack := by
  unfold copy
  split
  case h_4 => exact .of_isOutcome rfl rfl
  all_goals
    split
    case h_4 => exact .of_eval (.invoke ..)
    all_goals exact .of_isOutcome rfl rfl

theorem avoids_get {place : Place} (hplace : place.id ∉ F) (key : Value)
    {compute : Value → Program} (hcompute : ∀ v, (compute v).Avoids F) :
    (get place.id key compute stack s).Avoids F stack := by
  unfold get
  split
  · unfold getStable
    split
    · exact avoids_refuse _
    · exact .of_isOutcome rfl rfl
    · exact .of_frame (hcompute key) hplace
  · unfold getValue
    split
    · exact avoids_refuse _
    · exact .of_frame (.copy _) trivial
    · refine .lower [.release place.id .write] (.of_frame (hcompute key) trivial) ?_
      intro frame hframe
      rw [List.mem_singleton.mp hframe]
      trivial
  · exact avoids_refuse _

theorem avoids_peek (id : Nat) (key : Value) : (peek id key stack s).Avoids F stack := by
  unfold peek
  split
  · exact avoids_reply _
  · split
    · exact avoids_refuse _
    · exact .of_frame (.copy _) trivial
  · exact avoids_refuse _

/-- What a program that avoids some caches begins with avoids them, if the targets that it looks up
are not found among them. -/
theorem avoids_begin {p : Program} (hp : p.Avoids F) (code : s.CodeAvoids F)
    (located : ∀ target place s', s.locate target = .ok (place, s') → place.id ∉ F) :
    (begin p stack s).Avoids F stack := by
  cases hp with
  | done | fail => exact .of_isOutcome rfl rfl
  | perform c => exact avoids_reply _
  | bind hfirst hnext => exact .of_frame hfirst hnext
  | attempt hbody kinds hhandler => exact .of_frame hbody hhandler
  | on thread hbody => exact .of_frame hbody trivial
  | timed label enabled hbody =>
    rw [begin, time]
    split
    · exact avoids_refuse _
    · exact .of_frame hbody trivial
    · exact .of_eval hbody
  | reach target hnext =>
    rw [begin]
    split
    · rename_i hlocate
      exact .of_eval (hnext _ (located _ _ _ hlocate))
    · exact avoids_refuse _
  | view place mode key hbody =>
    rw [begin, openView]
    split
    · exact avoids_refuse _
    · exact .of_frame (hbody _) trivial
  | get hplace key hcompute => exact avoids_get hplace key hcompute
  | peek place key => exact avoids_peek place.id key
  | copy v => exact avoids_copy v
  | store hbody hnext => exact .of_eval (hnext _)
  | invoke n call =>
    rw [begin, invoke]
    split
    · rename_i run hrun
      exact .of_eval (code n run hrun call)
    · split
      · exact .of_eval (.hook ..)
      · exact avoids_refuse _
    · exact avoids_refuse _
  | locate _ hnext | resolve _ _ hnext =>
    rw [begin]
    split
    · exact .of_eval (hnext ..)
    · exact avoids_refuse _
  | fetch id table call =>
    rw [begin]
    split
    · exact .of_eval (.fetching ..)
    · exact avoids_refuse _

theorem avoids_finish (id : Nat) (key : Spelled) (k : Key) (outcome : Except Fault Value) :
    (finish id key k outcome stack s).Avoids F stack := by
  unfold finish
  split
  · dsimp only
    split <;> exact .of_isOutcome rfl rfl
  · exact avoids_refuse _

theorem avoids_resume {frame : Frame} (h : frame.Avoids F) (v : Value) :
    (resume v frame stack s).Avoids F stack := by
  cases frame with
  | bind next => exact .of_eval (h v)
  | attempt | thread | timer | release => exact .of_isOutcome rfl rfl
  | computing id key k => exact avoids_finish ..
  | storing id k =>
    rw [resume, deposit]
    split
    · exact .of_eval (.copy v)
    · exact avoids_refuse _

theorem avoids_unwind {frame : Frame} (h : frame.Avoids F) (f : Fault) :
    (unwind f frame stack s).Avoids F stack := by
  cases frame with
  | attempt kinds handler =>
    rw [unwind]
    split
    · exact .of_eval (h f)
    · exact .of_isOutcome rfl rfl
  | bind | storing | thread | timer | release => exact .of_isOutcome rfl rfl
  | computing id key k => exact avoids_finish ..

theorem Avoids.step (h : m.Avoids F base) (code : m.session.CodeAvoids F)
    (located : ∀ target place s, m.session.locate target = .ok (place, s) → place.id ∉ F)
    (hne : ¬(m.stack = base ∧ m.control.isOutcome = true)) : m.step.Avoids F base := by
  obtain ⟨control, stack, s⟩ := m
  obtain ⟨hcontrol, above, rfl, habove⟩ := h
  cases control with
  | eval p => exact (avoids_begin (hcontrol p rfl) code located).lower _ habove
  | give v | raise f =>
    cases above with
    | nil => exact absurd ⟨rfl, rfl⟩ hne
    | cons frame above =>
      have hframe := habove frame (.head _)
      have hrest : ∀ frame ∈ above, frame.Avoids F := fun f hf => habove f (.tail _ hf)
      first
        | exact (avoids_resume hframe v).lower _ hrest
        | exact (avoids_unwind hframe f).lower _ hrest

/-- Stored code goes on to avoid the caches if the program that stores code does. -/
theorem Revision.codeAvoids (h : Revision m m') (code : m.session.CodeAvoids F)
    (control : ∀ p, m.control = .eval p → p.Avoids F) : m'.session.CodeAvoids F := by
  intro n run hn
  rcases h.code_cases with hcode | ⟨run', next, hc, hcode⟩ | ⟨_, _, _, -, hcode⟩
  · exact code n run (hcode ▸ hn)
  · rw [hcode, Array.getElem?_push] at hn
    split at hn
    · cases hn
      cases control _ hc with
      | store hbody _ => exact hbody
    · exact code n run hn
  · rw [hcode, Array.getElem?_push] at hn
    split at hn
    · cases hn
    · exact code n run hn

end Machine

/-! ### Contents of a cache -/

/-- Whether two stable caches have the same values, marks and counts. -/
structure StableCache.SameContents (c c' : StableCache) : Prop where
  slots : c'.slots = c.slots
  pending : c'.pending = c.pending
  hits : c'.hits = c.hits
  misses : c'.misses = c.misses

namespace StableCache.SameContents

variable {c c' c'' : StableCache}

theorem refl (c : StableCache) : c.SameContents c := ⟨rfl, rfl, rfl, rfl⟩

theorem trans (h : c.SameContents c') (h' : c'.SameContents c'') : c.SameContents c'' :=
  ⟨h'.slots.trans h.slots, h'.pending.trans h.pending, h'.hits.trans h.hits,
    h'.misses.trans h.misses⟩

end StableCache.SameContents

namespace Shared

variable {c c' c'' : Shared} {r id : Nat} {r₀ r₁ : Resource}

/-- Whether a stable cache is still there with its contents. -/
def SameAt (r : Nat) (c c' : Shared) : Prop :=
  ∀ cache, c.resources[r]? = some (.stable cache) →
    ∃ cache', c'.resources[r]? = some (.stable cache') ∧ cache.SameContents cache'

namespace SameAt

theorem trans (h : SameAt r c c') (h' : SameAt r c' c'') : SameAt r c c'' := by
  intro cache found
  obtain ⟨cache', found', hcache'⟩ := h cache found
  obtain ⟨cache'', found'', hcache''⟩ := h' cache' found'
  exact ⟨cache'', found'', hcache'.trans hcache''⟩

theorem of_resources (h : c'.resources = c.resources) : SameAt r c c' :=
  fun cache found => ⟨cache, h ▸ found, .refl cache⟩

theorem of_push (r₁ : Resource) : SameAt r c (c.push r₁) := by
  intro cache found
  obtain ⟨hr, -⟩ := Array.getElem?_eq_some_iff.mp found
  refine ⟨cache, ?_, .refl cache⟩
  rw [getElem?_resources_push, if_neg (Nat.ne_of_lt hr), found]

/-- Another cache or cell is replaced. -/
theorem of_set_ne (found : c.resources[id]? = some r₀) (hne : r ≠ id) :
    SameAt r c (c.set id r₁) := by
  intro cache hr
  exact ⟨cache, by rw [getElem?_resources_set found, if_neg hne, hr], .refl cache⟩

theorem of_mapGuard (found : c.resources[id]? = some r₀) (f : Guard → Guard) :
    SameAt r c (c.set id (r₀.mapGuard f)) := by
  intro cache hr
  by_cases h : r = id
  · subst h
    obtain rfl := Option.some.inj (found.symm.trans hr)
    exact ⟨{ cache with guard := f cache.guard },
      by rw [getElem?_resources_set found, if_pos rfl]; rfl, rfl, rfl, rfl, rfl⟩
  · exact of_set_ne found h cache hr

theorem of_release (s : Session) (id : Nat) (mode : Mode) :
    SameAt r s.shared (s.release id mode).shared := by
  unfold Session.release
  split
  · rename_i found
    exact of_mapGuard (c := s.shared) found _
  · exact of_resources rfl

theorem of_dropNamed (s : Session) (name : String) :
    SameAt r s.shared (s.dropNamed name).shared := by
  unfold Session.dropNamed
  split
  · exact of_resources rfl
  · rename_i v _
    exact (of_release s v.resource v.mode).trans (of_resources rfl)

end SameAt

end Shared

namespace Machine

variable {m m' n : Machine} {r : Nat}

/-- The contents of a stable cache change only where the cache is asked for a key, and where a
computation of it ends. -/
theorem Change.sameAt (h : Change m m')
    (asks : ∀ place key compute, m.control = .eval (.get place key compute) → place.id ≠ r)
    (ends : m.control.isOutcome = true → ∀ key k rest, m.stack ≠ .computing r key k :: rest) :
    m.session.shared.SameAt r m'.session.shared := by
  cases h with
  | idle shared | abandon _ _ _ _ shared | stray _ shared | depart _ shared | comeBack _ shared =>
    rw [shared]
    exact .of_resources rfl
  | make r' new shared =>
    rw [shared]
    exact .of_push r'
  | enter id mode r' found free shared =>
    rw [shared]
    exact .of_mapGuard (c := m.session.shared) found _
  | leave id mode shared =>
    rw [shared]
    exact .of_release m.session id mode
  | openNamed name id mode r' found free shared =>
    have hset :
        m.session.shared.SameAt r (m.session.shared.set id (r'.mapGuard (·.acquire mode))) :=
      .of_mapGuard found _
    rw [shared]
    exact (hset.trans (.of_dropNamed (m.session.setResource id _) name)).trans (.of_resources rfl)
  | closeNamed name shared =>
    rw [shared]
    exact .of_dropNamed m.session name
  | hitStable id c k v found stored shared stack asked =>
    obtain ⟨place, key, compute, control, rfl⟩ := asked
    rw [shared]
    exact .of_set_ne (c := m.session.shared) found (asks place key compute control).symm
  | missStable id c key k found _ _ _ _ _ calls shared =>
    obtain ⟨place, key, compute, control, rfl, -⟩ := calls
    rw [shared]
    exact .of_set_ne (c := m.session.shared) found (asks place key compute control).symm
  | finish id key k c outcome control found shared stack =>
    rw [shared]
    refine .of_set_ne (c := m.session.shared) found ?_
    rintro rfl
    refine ends ?_ key k _ stack
    rw [control]
    cases outcome <;> rfl
  | hitValue id c k v found _ _ shared | missValue id c k found _ _ _ shared
  | deposit id c k v _ found shared =>
    -- a value cache is no stable cache
    rw [shared]
    intro cache hr
    refine Shared.SameAt.of_set_ne (c := m.session.shared) found ?_ cache hr
    rintro rfl
    cases found.symm.trans hr

end Machine

/-! ### The parts of other threads -/

/-- The parts that other threads than the current one have in per-thread caches. -/
def Session.foreign (s : Session) : Set Nat := {r | ∃ id t, t ≠ s.thread ∧ s.part id t = some r}

namespace Machine

variable {m n : Machine} {base : List Frame} {t : Thread} {id r : Nat} {c : StableCache}

/-- No target is found among the parts of other threads. -/
theorem Reachable.locate_not_mem_foreign (hm : Reachable m) {target : Target} {place : Place}
    {s : Session} (h : m.session.locate target = .ok (place, s)) :
    place.id ∉ m.session.foreign := by
  rintro ⟨id', t', hother, hpart⟩
  rcases Session.locate_eq_ok h with ⟨-, name, -, hname⟩ | ⟨id, hid⟩
  · exact (hm.orderly.named hname).2 id' t' hpart
  · obtain ⟨cd, found, -⟩ := Session.locateConfined_eq_ok hid
    obtain ⟨place', s', hlocate, -, locates⟩ := hm.orderly.exists_locates found
    cases hlocate.symm.trans hid
    -- the part that was found belongs to the current thread and to no other
    exact hother (locates.orderly.apart (locates.grows.part hpart) locates.part).2

/-- A step on one thread gives no other thread a part. -/
theorem Revision.part_of_ne {m' : Machine} (h : Revision m m') (hne : t ≠ m.session.thread) :
    m'.session.part id t = m.session.part id t := by
  rcases h.part_cases with hpart | ⟨id', c, -, -, -, hpart⟩
  · rw [hpart]
  · rw [hpart, if_neg fun h => hne h.2]

/-- What is known of a machine while what runs on one thread, from `m` on, avoids the parts of the
others. -/
structure Apart (m n : Machine) : Prop where
  reachable : Reachable n
  avoids : n.Avoids m.session.foreign m.stack
  code : n.session.CodeAvoids m.session.foreign
  part (id : Nat) (t : Thread) (h : t ≠ m.session.thread) :
    n.session.part id t = m.session.part id t
  same (r : Nat) (h : r ∈ m.session.foreign) : m.session.shared.SameAt r n.session.shared

theorem Apart.step (h : Apart m n) (hthread : n.session.thread = m.session.thread)
    (hne : ¬(n.stack = m.stack ∧ n.control.isOutcome = true)) (hmove : Move n n.step) :
    Apart m n.step := by
  have hforeign : n.session.foreign = m.session.foreign := by
    ext r
    constructor
    · rintro ⟨id, t, ht, hpart⟩
      rw [hthread] at ht
      exact ⟨id, t, ht, (h.part id t ht).symm.trans hpart⟩
    · rintro ⟨id, t, ht, hpart⟩
      exact ⟨id, t, hthread ▸ ht, (h.part id t ht).trans hpart⟩
  have hlocated : ∀ target place s, n.session.locate target = .ok (place, s) →
      place.id ∉ m.session.foreign := by
    intro target place s hlocate
    rw [← hforeign]
    exact h.reachable.locate_not_mem_foreign hlocate
  refine ⟨h.reachable.move hmove, h.avoids.step h.code hlocated hne,
    hmove.revision.codeAvoids h.code h.avoids.control, fun id t ht => ?_, fun r hr => ?_⟩
  · rw [(step_revision n).part_of_ne (hthread ▸ ht), h.part id t ht]
  · refine (h.same r hr).trans ((step_change n).sameAt ?_ ?_)
    · rintro place key compute control rfl
      cases h.avoids.control _ control with
      | get hplace => exact hplace hr
    · intro hc key k rest hstack
      -- the frame that gets the outcome is none of those that were there before
      obtain ⟨-, above, habove, havoids⟩ := h.avoids
      cases above with
      | nil => exact hne ⟨habove, hc⟩
      | cons frame above =>
        obtain ⟨rfl, -⟩ := List.cons.inj (habove.symm.trans hstack)
        exact havoids _ (.head _) hr

/-- A per-thread cache that has no part for a thread has a new one for it, so to speak. -/
theorem exists_newCache {s : Session} (hc : s.confinedCache id t = some c)
    (absent : s.part id t = none) :
    ∃ cd : Confined, s.confined[id]? = some cd ∧ c = cd.newCache t := by
  obtain ⟨cd, found, hcache⟩ := Option.bind_eq_some_iff.mp hc
  have hcaches : cd.caches.get? t = none := by rwa [Session.part, found, Option.bind_some] at absent
  rw [hcaches] at hcache
  cases hcache
  exact ⟨cd, found, rfl⟩

/-- **What runs on one thread leaves the caches of the others alone**, if it has no place of their
parts. -/
theorem Path.sameContents (hm : Reachable m) (avoids : m.Avoids m.session.foreign m.stack)
    (code : m.session.CodeAvoids m.session.foreign)
    (h : Path (fun n => n.session.thread = m.session.thread) m.stack m n)
    (ht : t ≠ m.session.thread) (hc : m.session.confinedCache id t = some c) :
    ∃ c', n.session.confinedCache id t = some c' ∧ c.SameContents c' := by
  -- along the path the other threads keep their parts, and no step asks one of them
  have happart : Apart m n := by
    refine h.induction List.suffix_rfl ?_ fun n happart hthread hne hmove =>
      happart.step hthread hne hmove
    exact ⟨hm, avoids, code, fun _ _ _ => rfl, fun _ _ => .of_resources rfl⟩
  have hpart := happart.part id t ht
  cases hr : m.session.part id t with
  | some r =>
    rw [Session.confinedCache_of_part hr, Session.stableAt_eq_some_iff] at hc
    obtain ⟨c', found', hsame⟩ := happart.same r ⟨id, t, ht, hr⟩ c hc
    refine ⟨c', ?_, hsame⟩
    rw [Session.confinedCache_of_part (hpart.trans hr)]
    exact Session.stableAt_eq_some_iff.mpr found'
  | none =>
    obtain ⟨cd, found, rfl⟩ := exists_newCache hc hr
    obtain ⟨cd', found', -⟩ := (h.leads List.suffix_rfl).extends.confined found
    have habsent := hpart.trans hr
    refine ⟨_, Session.confinedCache_of_absent found' ?_, rfl, rfl, rfl, rfl⟩
    rwa [Session.part, found', Option.bind_some] at habsent

end Machine

end CheckedMemo
