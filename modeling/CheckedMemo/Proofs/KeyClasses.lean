import CheckedMemo.Proofs.Counters
import CheckedMemo.Proofs.EqualKeys

/-!
# Caches respect equality of keys

The keys that a cache has stored or marked are those of values that can be used as keys, and no
key is stored or marked twice (`Reachable.keyed`, `Reachable.distinct`).  So the entries of a cache
stand for classes of equal values, and its size is their number (`Table.Represents`).

`caches_respect_key_equality` puts this together with the equality of keys itself and with what
requests with equal keys come to.
-/

namespace CheckedMemo

/-! ### Tables and the values that stand for their keys -/

/-- Whether some value has the key. -/
def Key.IsOfValue (k : Key) : Prop := ∃ v : Value, v.key = .ok k

/-- Whether the values stand for the keys of a table, one for each: no two of them are equal as
keys, and the table has an entry for a value exactly if it is equal to one of them. -/
structure Table.Represents {β : Type} (t : Table Key β) (vs : List Value) : Prop where
  unequal : vs.Pairwise fun v w => ¬v.KeyEqual w
  size : t.size = vs.length
  contains_iff (v : Value) (k : Key) (hk : v.key = .ok k) :
    t.contains k = true ↔ ∃ w ∈ vs, v.KeyEqual w

namespace Table

variable {β : Type} {t : Table Key β}

theorem contains_iff_mem_keys {k : Key} : t.contains k = true ↔ k ∈ t.keys := by
  rw [contains, Option.isSome_iff_ne_none]
  exact ⟨not_imp_comm.mp get?_eq_none_of_not_mem, fun h hnone => not_mem_keys_of_get? hnone h⟩

/-- Keys that are those of values are the keys of a list of values, in their order. -/
theorem exists_values {ks : List Key} (h : ∀ k ∈ ks, k.IsOfValue) :
    ∃ vs : List Value, List.Forall₂ (fun v k => v.key = .ok k) vs ks := by
  induction ks with
  | nil => exact ⟨[], .nil⟩
  | cons k ks ih =>
    obtain ⟨v, hv⟩ := h k List.mem_cons_self
    obtain ⟨vs, hvs⟩ := ih fun j hj => h j (List.mem_cons_of_mem k hj)
    exact ⟨v :: vs, .cons hv hvs⟩

theorem exists_mem_keyEqual_iff {vs : List Value} {ks : List Key}
    (h : List.Forall₂ (fun v k => v.key = .ok k) vs ks) {v : Value} {k : Key}
    (hk : v.key = .ok k) : (∃ w ∈ vs, v.KeyEqual w) ↔ k ∈ ks := by
  induction h with
  | nil => simp
  | @cons w j vs ks hw _ ih =>
    have hhead : v.KeyEqual w ↔ k = j := by
      rw [Value.keyEqual_iff]
      constructor
      · rintro ⟨i, hi, hi'⟩
        exact (Except.ok.inj (hk.symm.trans hi)).trans (Except.ok.inj (hi'.symm.trans hw))
      · rintro rfl
        exact ⟨k, hk, hw⟩
    rw [List.mem_cons, ← ih, ← hhead]
    simp only [List.mem_cons, or_and_right, exists_or, exists_eq_left]

theorem pairwise_not_keyEqual {vs : List Value} {ks : List Key}
    (h : List.Forall₂ (fun v k => v.key = .ok k) vs ks) (hks : ks.Nodup) :
    vs.Pairwise fun v w => ¬v.KeyEqual w := by
  induction h with
  | nil => exact .nil
  | cons hv hvs ih =>
    obtain ⟨hnot, hks'⟩ := List.nodup_cons.mp hks
    refine .cons (fun w hw hequal => hnot ?_) (ih hks')
    exact (exists_mem_keyEqual_iff hvs hv).mp ⟨w, hw, hequal⟩

/-- The keys of a table are represented by values if they are distinct and are those of values. -/
theorem exists_represents (hdistinct : t.keys.Nodup) (h : ∀ k ∈ t.keys, k.IsOfValue) :
    ∃ vs, t.Represents vs := by
  obtain ⟨vs, hvs⟩ := exists_values h
  refine ⟨vs, pairwise_not_keyEqual hvs hdistinct, ?_, fun v k hk => ?_⟩
  · rw [hvs.length_eq, keys, List.length_map, size]
  · rw [contains_iff_mem_keys, exists_mem_keyEqual_iff hvs hk]

end Table

/-! ### Marks are distinct -/

namespace Shared

variable {c : Shared} {id : Nat} {r r₀ : Resource}

/-- Whether no cache has a key marked twice. -/
def DistinctMarks (c : Shared) : Prop :=
  ∀ (id : Nat) (r : Resource), c.resources[id]? = some r → r.pending.keys.Nodup

namespace DistinctMarks

theorem of_resources {c' : Shared} (h : c.DistinctMarks) (hresources : c'.resources = c.resources) :
    c'.DistinctMarks :=
  fun id r found => h id r (hresources ▸ found)

theorem push (h : c.DistinctMarks) (hr : r.New) : (c.push r).DistinctMarks := by
  intro i r' found
  rw [getElem?_resources_push] at found
  split at found
  · cases found
    cases hr <;> exact List.nodup_nil
  · exact h i r' found

theorem set (h : c.DistinctMarks) (found : c.resources[id]? = some r₀)
    (hr : r.pending.keys.Nodup) : (c.set id r).DistinctMarks := by
  intro i r' found'
  rw [getElem?_resources_set found] at found'
  split at found'
  · cases found'
    exact hr
  · exact h i r' found'

theorem set_of_eq (h : c.DistinctMarks) (found : c.resources[id]? = some r₀)
    (hr : r.pending = r₀.pending) : (c.set id r).DistinctMarks :=
  h.set found (hr ▸ h id r₀ found)

theorem release {s : Session} (h : s.shared.DistinctMarks) (id : Nat) (mode : Mode) :
    (s.release id mode).shared.DistinctMarks := by
  unfold Session.release
  split
  · rename_i r found
    exact h.set_of_eq (c := s.shared) found (Resource.pending_mapGuard ..)
  · exact h

theorem dropNamed {s : Session} (h : s.shared.DistinctMarks) (name : String) :
    (s.dropNamed name).shared.DistinctMarks := by
  unfold Session.dropNamed
  split
  · exact h
  · exact (h.release _ _).of_resources rfl

end DistinctMarks

end Shared

/-- Ending a computation marks no key. -/
theorem StableCache.keys_finish_sublist (c : StableCache) (key : Spelled) (k : Key)
    (outcome : Except Fault Value) :
    (c.finish key k outcome).cache.pending.keys.Sublist c.pending.keys := by
  by_cases h : c.guard.isBorrowed = true
  · obtain ⟨active, -, hcache, -⟩ := finish_of_borrowed h key k outcome
    rw [hcache]
  · rw [Bool.not_eq_true] at h
    cases outcome with
    | ok v =>
      rw [finish_ok_of_free h]
      exact Table.keys_erase_sublist ..
    | error f =>
      rw [finish_error_of_free h]
      exact Table.keys_erase_sublist ..

namespace Machine

variable {m m' : Machine}

theorem Change.distinctMarks (hm : m.session.shared.DistinctMarks) (h : Change m m') :
    m'.session.shared.DistinctMarks := by
  cases h with
  | idle shared | abandon _ _ _ _ shared | stray _ shared =>
    rw [shared]
    exact hm
  | depart thread shared | comeBack thread shared =>
    rw [shared]
    exact hm.of_resources rfl
  | make r new shared =>
    rw [shared]
    exact hm.push new
  | enter id mode r found free shared =>
    rw [shared]
    exact hm.set_of_eq (c := m.session.shared) found (Resource.pending_mapGuard ..)
  | leave id mode shared =>
    rw [shared]
    exact hm.release id mode
  | openNamed name id mode r found free shared =>
    have hset : (m.session.setResource id (r.mapGuard (·.acquire mode))).shared.DistinctMarks :=
      hm.set_of_eq (c := m.session.shared) found (Resource.pending_mapGuard ..)
    rw [shared]
    exact (hset.dropNamed name).of_resources rfl
  | closeNamed name shared =>
    rw [shared]
    exact hm.dropNamed name
  | hitStable id c _ _ found _ shared | hitValue id c _ _ found _ _ shared
  | missValue id c _ found _ _ _ shared | deposit id c _ _ _ found shared =>
    rw [shared]
    exact hm.set_of_eq (c := m.session.shared) found rfl
  | missStable id c key k found free absent unmarked indexed showable calls shared =>
    -- a key is marked only where it has no mark yet
    rw [shared]
    exact hm.set (c := m.session.shared) found
      (Table.nodup_keys_insert (hm id _ found) unmarked m.session.thread)
  | finish id key k c outcome control found shared =>
    rw [shared]
    exact hm.set (c := m.session.shared) found
      ((hm id _ found).sublist (c.keys_finish_sublist key k outcome))

/-- No cache has a key stored or marked twice. -/
theorem Reachable.distinct (hm : Reachable m) {id : Nat} {r : Resource}
    (found : m.session.resources[id]? = some r) :
    r.slots.keys.Nodup ∧ r.pending.keys.Nodup := by
  constructor
  · have hslots := (hm.balanced id).2
    rw [account, Shared.account_of_found (c := m.session.shared) found] at hslots
    cases r with
    | cell => exact List.nodup_nil
    | stable c | value c => exact hslots
  · have hmarks : m.session.shared.DistinctMarks := by
      refine hm.induction (P := fun n => n.session.shared.DistinctMarks) ?_
        fun n n' _ hn hchange => hchange.distinctMarks hn
      intro n _ hshared id r found
      rw [hshared] at found
      cases found
    exact hmarks id r found

/-! ### Keys are those of values -/

/-- The keys that are stored, marked or in progress are those of values. -/
structure Keyed (m : Machine) : Prop where
  stored (x : Task) : m.session.shared.stored x ≠ none → x.key.IsOfValue
  marked (x : Task) : m.session.shared.mark x ≠ none → x.key.IsOfValue
  computed (x : Task) : x ∈ m.tasks → x.key.IsOfValue

theorem Starts.isOfValue {x : Task} (h : Starts m m' x) : x.key.IsOfValue := by
  obtain ⟨⟨_, key, _, -, -, hkey, -⟩, -⟩ := h
  exact ⟨key, hkey⟩

/-- Only a request brings a new key into a cache. -/
theorem Keyed.advance (hm : m.Keyed) (h : Advance m m') : m'.Keyed := by
  cases h with
  | calm contents computations =>
    have htasks : m'.tasks = m.tasks := by
      rw [← map_task_computations, computations, map_task_computations]
    refine ⟨fun x hx => hm.stored x ?_, fun x hx => hm.marked x ?_, fun x hx => hm.computed x ?_⟩
    · rwa [← contents.stored]
    · rwa [← contents.mark]
    · rwa [← htasks]
  | startStable y c starts found unstored unmarked stored mark computations =>
    refine ⟨fun x hx => hm.stored x ?_, fun x hx => ?_, fun x hx => ?_⟩
    · rwa [← stored]
    · rw [mark] at hx
      split at hx
      · rename_i heq
        exact heq ▸ starts.isOfValue
      · exact hm.marked x hx
    · rw [tasks_of_computations computations] at hx
      rcases List.mem_cons.mp hx with rfl | hx
      · exact starts.isOfValue
      · exact hm.computed x hx
  | startValue y c starts found fresh unstored contents computations =>
    refine ⟨fun x hx => hm.stored x ?_, fun x hx => hm.marked x ?_, fun x hx => ?_⟩
    · rwa [← contents.stored]
    · rwa [← contents.mark]
    · rw [tasks_of_computations computations] at hx
      rcases List.mem_cons.mp hx with rfl | hx
      · exact starts.isOfValue
      · exact hm.computed x hx
  | drop y finishes stored others own computations =>
    have hy : y.task ∈ m.tasks := by
      rw [tasks_of_computations computations]
      exact List.mem_cons_self
    refine ⟨fun x hx => hm.stored x ?_, fun x hx => ?_, fun x hx => hm.computed x ?_⟩
    · rwa [← stored]
    · by_cases hne : x = y.task
      · exact hne ▸ hm.computed _ hy
      · exact hm.marked x (others x hne ▸ hx)
    · rw [tasks_of_computations computations]
      exact List.mem_cons_of_mem _ hx
  | keep y v finishes control value stored others own computations =>
    have hy : y.task ∈ m.tasks := by
      rw [tasks_of_computations computations]
      exact List.mem_cons_self
    refine ⟨fun x hx => ?_, fun x hx => ?_, fun x hx => hm.computed x ?_⟩
    · by_cases hne : x = y.task
      · exact hne ▸ hm.computed _ hy
      · exact hm.stored x (stored x hne ▸ hx)
    · by_cases hne : x = y.task
      · exact hne ▸ hm.computed _ hy
      · exact hm.marked x (others x hne ▸ hx)
    · rw [tasks_of_computations computations]
      exact List.mem_cons_of_mem _ hx

theorem Reachable.keyed (hm : Reachable m) : m.Keyed := by
  refine hm.induction ?_ fun m m' hr hm hchange => hm.advance (hr.advance hchange)
  intro n hstack hshared
  refine ⟨fun x hx => ?_, fun x hx => ?_, fun x hx => ?_⟩
  · rw [hshared] at hx
    exact absurd rfl hx
  · rw [hshared] at hx
    exact absurd rfl hx
  · rw [tasks, hstack] at hx
    cases hx

/-- The stored keys of a cache, and its marks, are represented by values. -/
theorem Reachable.represented (hm : Reachable m) {id : Nat} {r : Resource}
    (found : m.session.resources[id]? = some r) :
    (∃ vs, r.slots.Represents vs) ∧ ∃ vs, r.pending.Represents vs := by
  obtain ⟨hslots, hmarks⟩ := hm.distinct found
  refine ⟨Table.exists_represents hslots fun k hk => ?_,
    Table.exists_represents hmarks fun k hk => ?_⟩
  · refine hm.keyed.stored ⟨id, k⟩ ?_
    rw [Shared.stored_of_found (c := m.session.shared) found]
    exact fun h => Table.not_mem_keys_of_get? h hk
  · refine hm.keyed.marked ⟨id, k⟩ ?_
    rw [Shared.mark_of_found (c := m.session.shared) found]
    exact fun h => Table.not_mem_keys_of_get? h hk

end Machine

/-- The size that a cache gives is the number of its stored keys. -/
theorem Resource.size_eq_ok {r : Resource} {unkeyed : Request} {n : Nat}
    (h : r.size unkeyed = .ok n) : n = r.slots.size := by
  cases r with
  | cell => cases h
  | stable c | value c =>
    obtain ⟨_, -, hn⟩ := exists_of_bind_eq_ok h
    cases hn
    rfl

/-! ### Main statement -/

namespace Machine

/-- **Caches respect equality of keys.**  Equality of keys is an equivalence.  Whatever has happened
in a session, no two keys that a cache has stored are equal, nor are two that it has marked, so its
size is the number of classes of equal keys that have a value.  Whoever asks a cache for one of two
equal keys, at its place or by its name, with a computation that does the same for both, does the
same as whoever asks for the other: the ends are the same, and so is the session that is left, but
for how the key is spelled in faults and in the journal. -/
theorem caches_respect_key_equality :
    (Equivalence fun v w : { v : Value // v.IsHashable } => v.1.KeyEqual w.1) ∧
    (∀ m, Reachable m → ∀ (id : Nat) (r : Resource), m.session.resources[id]? = some r →
      ∃ stored marked, r.slots.Represents stored ∧ r.pending.Represents marked ∧
        ∀ unkeyed n, r.size unkeyed = .ok n → n = stored.length) ∧
    ∀ (k₁ k₂ : Value) (compute : Value → Program), k₁.KeyEqual k₂ →
      (compute k₁).Alike (compute k₂) → ∀ i : Inquiry,
        (∀ place, (i.program k₁ compute place).Alike (i.program k₂ compute place)) ∧
        ∀ target, (Program.reach target (i.program k₁ compute)).Alike
          (.reach target (i.program k₂ compute)) := by
  refine ⟨Value.keyEqual_equivalence, fun m hm id r found => ?_,
    fun k₁ k₂ compute hkey hcompute i => ?_⟩
  · obtain ⟨⟨stored, hstored⟩, marked, hmarked⟩ := hm.represented found
    exact ⟨stored, marked, hstored, hmarked,
      fun unkeyed n hn => (Resource.size_eq_ok hn).trans hstored.size⟩
  · have halike := i.alike hkey hcompute
    exact ⟨halike, fun target => .reach target halike⟩

/-- The pair of one and zero, as integers and as truth values. -/
def integerPair : Value := .tuple 1 [.int 1, .int 0]

@[inherit_doc integerPair]
def truthPair : Value := .tuple 2 [.bool true, .bool false]

/-- The machine that has stored a value for the pair of integers. -/
def havingStoredPair : Machine :=
  (load (.andThen (.perform (.create (.stable "c" none)))
    (.get ⟨0, none⟩ integerPair fun _ => .done (.text "v"))) (.start .events [])).run 10

/-- The pair of truth values is found where that of integers is stored, and to populate either does
the same. -/
theorem caches_respect_key_equality_pairs :
    Reachable havingStoredPair ∧ integerPair.KeyEqual truthPair ∧
    (∃ r stored, havingStoredPair.session.resources[0]? = some r ∧ r.slots.Represents stored ∧
      stored.length = 1 ∧ ∃ w ∈ stored, truthPair.KeyEqual w) ∧
    (Program.reach (.named "c") fun place =>
        .populate place integerPair fun _ => .done (.text "w")).Alike
      (.reach (.named "c") fun place =>
        .populate place truthPair fun _ => .done (.text "w")) := by
  have hm : Reachable havingStoredPair := (Reachable.start ..).leads (leads_run ..)
  have hequal : integerPair.KeyEqual truthPair := Value.keyEqual_iff.mpr ⟨_, rfl, rfl⟩
  obtain ⟨c, found, hslots⟩ : ∃ c, havingStoredPair.session.resources[0]? = some (.stable c) ∧
      c.slots = ⟨[(.ofAtoms [.tuple 2, .number 1, .number 0], .text "v")]⟩ := ⟨_, rfl, rfl⟩
  obtain ⟨-, hclasses, halike⟩ := caches_respect_key_equality
  obtain ⟨stored, -, hstored, -⟩ := hclasses _ hm 0 _ found
  have hlength : stored.length = 1 := by
    rw [← hstored.size]
    exact congrArg Table.size hslots
  have hcontains : c.slots.contains (.ofAtoms [.tuple 2, .number 1, .number 0]) = true := by
    rw [hslots]
    decide
  refine ⟨hm, hequal, ⟨_, stored, found, hstored, hlength, ?_⟩, ?_⟩
  · exact (hstored.contains_iff truthPair _ rfl).mp hcontains
  · obtain ⟨-, hnamed⟩ := halike integerPair truthPair (fun _ => .done (.text "w")) hequal
      (.refl _) .populate
    exact hnamed (.named "c")

end Machine

end CheckedMemo
