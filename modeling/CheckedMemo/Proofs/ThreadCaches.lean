import CheckedMemo.Proofs.Registry
import CheckedMemo.Proofs.StoredValues

/-!
# The caches of threads

`Session.confinedCache` is the cache that a per-thread cache has for a thread, or would make for it:
whether it has been made yet makes no difference to anyone but the session.  So locating a part
changes none of these caches (`Session.Orderly.exists_locates`), and replacing one of them
changes no other (`Session.Orderly.confinedCache_set`).
-/

namespace CheckedMemo

/-- The cache that a per-thread cache makes for a thread. -/
def Confined.newCache (c : Confined) (t : Thread) : StableCache :=
  { guard := { label := c.labelOn t } }

namespace Session

/-- The stable cache with a number. -/
def stableAt (s : Session) (r : Nat) : Option StableCache :=
  match s.resources[r]? with
  | some (.stable c) => some c
  | _ => none

theorem stableAt_eq_some_iff {s : Session} {r : Nat} {c : StableCache} :
    s.stableAt r = some c ↔ s.resources[r]? = some (.stable c) := by
  unfold stableAt
  constructor
  · intro h
    split at h
    · rename_i found
      cases h
      exact found
    · cases h
  · intro h
    rw [h]

/-- The cache that a per-thread cache has for a thread, or would make for it. -/
def confinedCache (s : Session) (id : Nat) (t : Thread) : Option StableCache :=
  s.confined[id]?.bind fun c =>
    match c.caches.get? t with
    | some r => s.stableAt r
    | none => some (c.newCache t)

/-- The cache in which an override keeps its artifacts on a thread, or would keep them. -/
def artifactCache (s : Session) (override : Nat) (t : Thread) : Option StableCache :=
  s.overrides[override]?.bind fun o => s.confinedCache o.artifacts t

/-- The artifact that an override has captured of a key on a thread. -/
def artifact (s : Session) (override : Nat) (t : Thread) (k : Key) : Option Value :=
  (s.artifactCache override t).bind (·.slots.get? k)

variable {s s' : Session} {id r : Nat} {t : Thread} {c : Confined} {cache cache' : StableCache}

theorem confinedCache_of_part (h : s.part id t = some r) : s.confinedCache id t = s.stableAt r := by
  obtain ⟨c, found, hr⟩ := Option.bind_eq_some_iff.mp h
  rw [confinedCache, found, Option.bind_some, hr]

theorem confinedCache_of_absent (found : s.confined[id]? = some c)
    (absent : c.caches.get? t = none) : s.confinedCache id t = some (c.newCache t) := by
  rw [confinedCache, found, Option.bind_some, absent]

/-- The caches of threads depend on what is shared and on what is registered only. -/
theorem confinedCache_congr (shared : s'.shared = s.shared) (registry : s'.registry = s.registry) :
    s'.confinedCache = s.confinedCache := by
  have hresources : s'.resources = s.resources := congrArg Shared.resources shared
  have hconfined : s'.confined = s.confined := congrArg Registry.confined registry
  funext id t
  rw [confinedCache, confinedCache, hconfined]
  unfold stableAt
  rw [hresources]

theorem artifactCache_congr (shared : s'.shared = s.shared) (registry : s'.registry = s.registry) :
    s'.artifactCache = s.artifactCache := by
  have hoverrides : s'.overrides = s.overrides := congrArg Registry.overrides registry
  funext id t
  rw [artifactCache, artifactCache, hoverrides, confinedCache_congr shared registry]

theorem artifactCache_report (s : Session) (f : Fault) :
    (s.report f).artifactCache = s.artifactCache :=
  artifactCache_congr (shared_report ..) (registry_report ..)

/-- The cache of a thread that holds something has been made. -/
theorem part_of_slots (h : s.confinedCache id t = some cache) {k : Key} {v : Value}
    (hv : cache.slots.get? k = some v) : ∃ r, s.part id t = some r := by
  obtain ⟨c, found, hcache⟩ := Option.bind_eq_some_iff.mp h
  cases hr : c.caches.get? t with
  | some r => exact ⟨r, by rw [part, found, Option.bind_some, hr]⟩
  | none =>
    rw [hr] at hcache
    cases hcache
    cases hv

namespace Orderly

/-- Replacing the cache of one thread changes that of no other. -/
theorem confinedCache_set (hs : s.Orderly) (hpart : s.part id t = some r)
    (shared : s'.shared = s.shared.set r (.stable cache')) (registry : s'.registry = s.registry)
    (id' : Nat) (t' : Thread) : s'.confinedCache id' t' =
      if id' = id ∧ t' = t then some cache' else s.confinedCache id' t' := by
  obtain ⟨cache, found⟩ := hs.hosted hpart
  have hresources (i : Nat) :
      s'.resources[i]? = if i = r then some (.stable cache') else s.resources[i]? := by
    have h := Shared.getElem?_resources_set (c := s.shared) found (.stable cache') i
    rw [← shared] at h
    exact h
  have hconfined : s'.confined = s.confined := congrArg Registry.confined registry
  have hpart' : s'.part = s.part := part_of_confined hconfined
  by_cases h : id' = id ∧ t' = t
  · obtain ⟨rfl, rfl⟩ := h
    rw [if_pos ⟨rfl, rfl⟩, confinedCache_of_part (hpart' ▸ hpart), stableAt, hresources, if_pos rfl]
  · rw [if_neg h, confinedCache, confinedCache, hconfined]
    cases hc : s.confined[id']? with
    | none => rfl
    | some c =>
      rw [Option.bind_some, Option.bind_some]
      cases hr : c.caches.get? t' with
      | none => rfl
      | some r' =>
        have hother : s.part id' t' = some r' := by rw [part, hc, Option.bind_some, hr]
        have hne : r' ≠ r := by
          rintro rfl
          exact h (hs.apart hother hpart)
        show s'.stableAt r' = s.stableAt r'
        rw [stableAt, stableAt, hresources, if_neg hne]

/-- Replacing the artifacts of one override changes those of no other. -/
theorem artifactCache_set (hs : s.Orderly) {o : Override} (ho : s.overrides[id]? = some o)
    (hpart : s.part o.artifacts t = some r) (shared : s'.shared = s.shared.set r (.stable cache'))
    (registry : s'.registry = s.registry) (id' : Nat) :
    s'.artifactCache id' t = if id' = id then some cache' else s.artifactCache id' t := by
  have hoverrides : s'.overrides = s.overrides := congrArg Registry.overrides registry
  rw [artifactCache, artifactCache, hoverrides]
  by_cases h : id' = id
  · subst h
    rw [if_pos rfl, ho, Option.bind_some, hs.confinedCache_set hpart shared registry,
      if_pos ⟨rfl, rfl⟩]
  · rw [if_neg h]
    cases ho' : s.overrides[id']? with
    | none => rfl
    | some o' =>
      have hne : o'.artifacts ≠ o.artifacts := fun heq => h (hs.distinct ho' ho heq)
      rw [Option.bind_some, Option.bind_some, hs.confinedCache_set hpart shared registry,
        if_neg (fun heq => hne heq.1)]

/-- A part that is made is the cache that would have been made. -/
theorem confinedCache_make (hs : s.Orderly) (found : s.confined[id]? = some c)
    (absent : c.caches.get? t = none)
    (confined : s'.confined = s.confined.setIfInBounds id (c.withPart t s.resources.size))
    (resources : s'.resources = s.resources.push (.stable (c.newCache t))) (id' : Nat)
    (t' : Thread) : s'.confinedCache id' t' = s.confinedCache id' t' := by
  have hpart := part_of_set found confined
  have hold {id' r' : Nat} {t' : Thread} (hr' : s.part id' t' = some r') :
      s'.stableAt r' = s.stableAt r' := by
    rw [stableAt, stableAt, resources, Array.getElem?_push, if_neg (Nat.ne_of_lt (hs.part_lt hr'))]
  by_cases h : id' = id ∧ t' = t
  · obtain ⟨rfl, rfl⟩ := h
    have hnew : s'.part id' t' = some s.resources.size := (hpart id' t').trans (if_pos ⟨rfl, rfl⟩)
    rw [confinedCache_of_part hnew, confinedCache_of_absent found absent, stableAt_eq_some_iff,
      resources, Array.getElem?_push, if_pos rfl]
  · have hsame : s'.part id' t' = s.part id' t' := (hpart id' t').trans (if_neg h)
    cases hr : s.part id' t' with
    | some r' => rw [confinedCache_of_part hr, confinedCache_of_part (hsame.trans hr), hold hr]
    | none =>
      obtain ⟨hid, -⟩ := Array.getElem?_eq_some_iff.mp found
      rw [confinedCache, confinedCache, confined, Array.getElem?_setIfInBounds]
      by_cases hid' : id = id'
      · subst hid'
        have hne : t' ≠ t := fun ht => h ⟨rfl, ht⟩
        have hnone : c.caches.get? t' = none := by
          rwa [part, found, Option.bind_some] at hr
        have hnone' : (c.withPart t s.resources.size).caches.get? t' = none := by
          rw [Confined.withPart, Table.get?_insert, if_neg hne, hnone]
        rw [if_pos rfl, if_pos hid, found, Option.bind_some, Option.bind_some, hnone, hnone']
        rfl
      · rw [if_neg hid']
        cases hc : s.confined[id']? with
        | none => rfl
        | some c' =>
          have hnone : c'.caches.get? t' = none := by
            rwa [part, hc, Option.bind_some] at hr
          rw [Option.bind_some, Option.bind_some, hnone]

end Orderly

/-! ### Locating the cache of the current thread -/

/-- Whether `place` is the part of a per-thread cache that belongs to the current thread, in the
session `s'` in which it has been made if need be. -/
structure Locates (s : Session) (id : Nat) (place : Place) (s' : Session) : Prop where
  part : s'.part id s.thread = some place.id
  caches (id' : Nat) (t' : Thread) : s'.confinedCache id' t' = s.confinedCache id' t'
  orderly : s'.Orderly
  grows : s.Extends s'
  rest : ∃ resources confined, s' = { s with resources, confined }
  same {r : Nat} (h : s.part id s.thread = some r) : s' = s

theorem Locates.exists_cache {place : Place} (h : s.Locates id place s') :
    ∃ cache, s'.resources[place.id]? = some (.stable cache) ∧
      s.confinedCache id s.thread = some cache := by
  obtain ⟨cache, found⟩ := h.orderly.hosted h.part
  refine ⟨cache, found, ?_⟩
  rw [← h.caches, confinedCache_of_part h.part]
  exact stableAt_eq_some_iff.mpr found

theorem Locates.artifactCache_eq {place : Place} (h : s.Locates id place s') (override : Nat)
    (t : Thread) : s'.artifactCache override t = s.artifactCache override t := by
  have hcaches := h.caches
  obtain ⟨resources, confined, rfl⟩ := h.rest
  rw [artifactCache, artifactCache]
  exact congrArg s.overrides[override]?.bind (funext fun o => hcaches o.artifacts t)

/-- The part of the current thread is found or made, and the caches of threads are as before. -/
theorem Orderly.exists_locates (hs : s.Orderly) (found : s.confined[id]? = some c) :
    ∃ place s', s.locateConfined id = .ok (place, s') ∧ place.hint = c.hint ∧
      s.Locates id place s' := by
  cases hr : c.caches.get? s.thread with
  | some r =>
    have hpart : s.part id s.thread = some r := by rw [part, found, Option.bind_some, hr]
    refine ⟨⟨r, c.hint⟩, s, by simp only [locateConfined, found, hr], rfl, hpart, fun _ _ => rfl,
      hs, .refl s, ⟨_, _, rfl⟩, fun _ => rfl⟩
  | none =>
    let s' : Session :=
      { s with
        resources := s.resources.push (.stable (c.newCache s.thread))
        confined := s.confined.setIfInBounds id (c.withPart s.thread s.resources.size) }
    have hlocate : s.locateConfined id = .ok (⟨s.resources.size, c.hint⟩, s') := by
      simp only [locateConfined, found, hr]
      rfl
    have hrevision : Machine.Revision (.load (.done .null) s) (.load (.done .null) s') :=
      Machine.revision_of_locateConfined _ _ _ hlocate _ _
    have habsent : s.part id s.thread = none := by rw [part, found, Option.bind_some, hr]
    refine ⟨⟨s.resources.size, c.hint⟩, s', hlocate, rfl, ?_,
      hs.confinedCache_make found hr rfl rfl, hrevision.orderly hs (.of_push _), hrevision.extends,
      ⟨_, _, rfl⟩, ?_⟩
    · exact (part_of_set found rfl id s.thread).trans (if_pos ⟨rfl, rfl⟩)
    · intro r h
      cases habsent.symm.trans h

/-- The artifacts of an override on the current thread are found or made. -/
theorem Orderly.exists_locateArtifacts (hs : s.Orderly) {override : Nat} {o : Override}
    (ho : s.overrides[override]? = some o) :
    ∃ place s', s.locateArtifacts override = .ok (place, s') ∧ s.Locates o.artifacts place s' := by
  obtain ⟨place, s', hlocate, -, h⟩ :=
    hs.exists_locates (Array.getElem?_eq_getElem (hs.owned ho))
  refine ⟨place, s', ?_, h⟩
  rw [locateArtifacts, ho]
  exact hlocate

end Session

end CheckedMemo
