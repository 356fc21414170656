import CheckedMemo.Proofs.Counters
import Mathlib.Data.Finset.Card

/-!
# The account of many look-ups

What a cache counts and stores when it is asked for the values of a list of keys, all of them
computed by one pure function `F` (`Served` for one request, `ServedEach` for a list).  The function
gives plain values, which are the same wherever they are shown (`Value.Matches`).

What comes of the list is said without its order (`ServedEach.account`): the keys that get a value
are those that had none and can be computed; there are as many misses as such keys; and every other
request for a key with a value is a hit.
-/

namespace CheckedMemo

/-! ### Plain values -/

/-- Whether two values are shown as the same, whatever memory holds.  A value that is stored in
memory is not even shown as itself then, so such values are plain. -/
def Value.Matches (v w : Value) : Prop := ∀ m n : Memory, m.snapshot v = n.snapshot w

namespace Value.Matches

variable {u v w : Value}

theorem symm (h : v.Matches w) : w.Matches v := fun m n => (h n m).symm

theorem trans (h : u.Matches v) (h' : v.Matches w) : u.Matches w :=
  fun m n => (h m m).trans (h' m n)

theorem plain (h : v.Matches w) : v.Matches v := h.trans h.symm

end Value.Matches

/-- A memory in which an empty list stands at an address. -/
def Memory.listsUpTo (address : Nat) : Memory :=
  { heap := Array.replicate (address + 1) (.list #[]) }

theorem Memory.snapshotAt_listsUpTo (address : Nat) :
    (listsUpTo address).snapshotAt true (listsUpTo address).heap.size [] address = .list [] := by
  have hcontents : (listsUpTo address).contents? address = some (.list #[]) := by
    simp [listsUpTo, contents?]
  have hsize : (listsUpTo address).heap.size = address + 1 := by
    simp [listsUpTo]
  rw [hsize, snapshotAt, hcontents]
  rfl

/-- A plain value is its own copy. -/
theorem Machine.copy_of_plain {v : Value} (h : v.Matches v) (stack : List Frame) (s : Session) :
    copy v stack s = ⟨.give v, stack, s⟩ := by
  -- what stands at an address is not shown the same in every memory
  have hstored (a : Nat) (hv : ∀ m : Memory, m.snapshot v = m.snapshotAt true m.heap.size [] a) :
      False := by
    have hempty : Memory.snapshotAt {} true 0 [] a = .list [] := by
      rw [← Memory.snapshotAt_listsUpTo a, ← hv, ← h {}, hv]
      rfl
    cases hempty
  cases v with
  | list a => exact (hstored a fun _ => rfl).elim
  | dict a => exact (hstored a fun _ => rfl).elim
  | object a => exact (hstored a fun _ => rfl).elim
  | _ => rfl

/-- Whether two outcomes are the same plain value or the same fault. -/
inductive Outcome.Matches : Except Fault Value → Except Fault Value → Prop where
  | ok {v w : Value} (h : v.Matches w) : Matches (.ok v) (.ok w)
  | error (f : Fault) : Matches (.error f) (.error f)

/-! ### Look-ups -/

section

variable (F : Key → Except Fault Value)

/-- Whether a key gets a value when it is computed: it has to be shown first. -/
def answers (k : Key) : Bool := k.isShowable && (F k).isOk

/-- What a request for `k` comes to, and what a cache with the account `a` has counted and stored
after it. -/
inductive Served (k : Key) (a : Account) : Except Fault Value → Account → Prop where
  | hit {v : Value} {outcome : Except Fault Value} (stored : a.slots.get? k = some v)
    (plain : v.Matches v → outcome = .ok v) : Served k a outcome a.hit
  | miss {v w : Value} (absent : a.slots.get? k = none) (showable : k.isShowable = true)
    (computed : F k = .ok w) (h : v.Matches w) : Served k a (.ok v) (a.store k v)
  | failed {f : Fault} (absent : a.slots.get? k = none) (showable : k.isShowable = true)
    (computed : F k = .error f) : Served k a (.error f) a
  | unshown (absent : a.slots.get? k = none) (showable : k.isShowable = false) :
    Served k a (.error .unspellable) a

/-- What requests for the keys of a list come to, one after the other. -/
inductive ServedEach : List Key → Account → List (Except Fault Value) → Account → Prop where
  | nil (a : Account) : ServedEach [] a [] a
  | cons {k : Key} {ks : List Key} {a b c : Account} {outcome : Except Fault Value}
    {outcomes : List (Except Fault Value)} (head : Served F k a outcome b)
    (tail : ServedEach ks b outcomes c) : ServedEach (k :: ks) a (outcome :: outcomes) c

/-- The keys of a list that get a value: they had none, and can be computed. -/
def newKeys (a : Account) (ks : List Key) : Finset Key :=
  ks.toFinset.filter fun k => !a.slots.contains k && answers F k

/-- The number of requests in a list that are for keys with a value, be it old or new. -/
def answered (a : Account) (ks : List Key) : Nat :=
  ks.countP fun k => a.slots.contains k || answers F k

/-- What requests for the keys of a list, in any order, make of an account `a`. -/
structure Fills (ks : List Key) (a b : Account) : Prop where
  kept : ∀ k v, a.slots.get? k = some v → b.slots.get? k = some v
  new : ∀ k ∈ newKeys F a ks, ∃ v w, b.slots.get? k = some v ∧ F k = .ok w ∧ v.Matches w
  others : ∀ k, a.slots.get? k = none → k ∉ newKeys F a ks → b.slots.get? k = none
  misses : b.misses = a.misses + (newKeys F a ks).card
  size : b.slots.size = a.slots.size + (newKeys F a ks).card
  hits : b.hits + (newKeys F a ks).card = a.hits + answered F a ks

end

variable {F : Key → Except Fault Value} {k : Key} {ks : List Key} {a b c : Account}
  {outcome : Except Fault Value} {outcomes : List (Except Fault Value)}

theorem mem_newKeys {x : Key} :
    x ∈ newKeys F a ks ↔ x ∈ ks ∧ a.slots.get? x = none ∧ answers F x = true := by
  simp [newKeys, Table.contains]

theorem answers_eq_true_iff : answers F k = true ↔ k.isShowable = true ∧ ∃ w, F k = .ok w := by
  rw [answers, Bool.and_eq_true]
  refine and_congr_right fun _ => ?_
  cases F k with
  | ok w => simp [Except.isOk, Except.toBool]
  | error f => simp [Except.isOk, Except.toBool]

namespace Served

/-- A request for a key that gets no value leaves the account to the rest of the list. -/
theorem newKeys_cons_of_not (h : k ∉ newKeys F a (k :: ks)) :
    newKeys F a (k :: ks) = newKeys F a ks := by
  ext x
  rw [mem_newKeys, mem_newKeys, List.mem_cons]
  constructor
  · rintro ⟨rfl | hx, hnew⟩
    · exact absurd (mem_newKeys.mpr ⟨List.mem_cons_self, hnew⟩) h
    · exact ⟨hx, hnew⟩
  · rintro ⟨hx, hnew⟩
    exact ⟨.inr hx, hnew⟩

/-- Of the keys that get a value, the first request takes its own away. -/
theorem newKeys_cons_of_store (absent : a.slots.get? k = none) (hk : answers F k = true)
    (v : Value) (ks : List Key) : newKeys F a (k :: ks) = insert k (newKeys F (a.store k v) ks) ∧
      k ∉ newKeys F (a.store k v) ks := by
  have hget (x : Key) : (a.store k v).slots.get? x = if x = k then some v else a.slots.get? x :=
    Table.get?_insert ..
  constructor
  · ext x
    rw [Finset.mem_insert, mem_newKeys, mem_newKeys, hget, List.mem_cons]
    by_cases hx : x = k
    · subst hx
      simp [absent, hk]
    · simp [hx]
  · rw [mem_newKeys, hget, if_pos rfl]
    simp

theorem answered_store (hk : answers F k = true) (v : Value) :
    answered F (a.store k v) ks = answered F a ks := by
  unfold answered
  congr 1
  funext x
  have hget : (a.store k v).slots.get? x = if x = k then some v else a.slots.get? x :=
    Table.get?_insert ..
  rw [Table.contains, Table.contains, hget]
  by_cases hx : x = k
  · subst hx
    simp [hk]
  · rw [if_neg hx]

theorem answered_cons (k : Key) (ks : List Key) (a : Account) :
    answered F a (k :: ks) =
      answered F a ks + if (a.slots.contains k || answers F k) = true then 1 else 0 := by
  rw [answered, List.countP_cons]
  rfl

/-- A request that counts nothing leaves the account to the rest of the list. -/
theorem fills_of_uncounted (absent : a.slots.get? k = none) (hk : answers F k = false)
    (h : Fills F ks a b) : Fills F (k :: ks) a b := by
  have hnew : newKeys F a (k :: ks) = newKeys F a ks := by
    refine newKeys_cons_of_not fun hmem => ?_
    rw [(mem_newKeys.mp hmem).2.2] at hk
    cases hk
  have hanswered : answered F a (k :: ks) = answered F a ks := by
    rw [answered_cons, hk, Table.contains, absent]
    rfl
  exact ⟨h.kept, hnew ▸ h.new, hnew ▸ h.others, hnew ▸ h.misses, hnew ▸ h.size,
    by rw [hnew, hanswered, h.hits]⟩

theorem fills_of_hit {v : Value} (stored : a.slots.get? k = some v) (h : Fills F ks a.hit b) :
    Fills F (k :: ks) a b := by
  have hnew : newKeys F a (k :: ks) = newKeys F a ks := by
    refine newKeys_cons_of_not fun hmem => ?_
    rw [(mem_newKeys.mp hmem).2.1] at stored
    cases stored
  have hanswered : answered F a (k :: ks) = answered F a ks + 1 := by
    rw [answered_cons, Table.contains, stored]
    rfl
  have hhits : b.hits + (newKeys F a ks).card = a.hits + 1 + answered F a ks := h.hits
  refine ⟨h.kept, hnew ▸ h.new, hnew ▸ h.others, hnew ▸ h.misses, hnew ▸ h.size, ?_⟩
  rw [hnew, hanswered]
  omega

theorem fills_of_miss {v w : Value} (absent : a.slots.get? k = none)
    (hk : answers F k = true) (computed : F k = .ok w) (hv : v.Matches w)
    (h : Fills F ks (a.store k v) b) : Fills F (k :: ks) a b := by
  obtain ⟨hnew, hfresh⟩ := newKeys_cons_of_store absent hk v ks
  have hcard : (newKeys F a (k :: ks)).card = (newKeys F (a.store k v) ks).card + 1 := by
    rw [hnew, Finset.card_insert_of_notMem hfresh]
  have hget (x : Key) : (a.store k v).slots.get? x = if x = k then some v else a.slots.get? x :=
    Table.get?_insert ..
  constructor
  · intro x u hx
    have hne : x ≠ k := by
      rintro rfl
      rw [absent] at hx
      cases hx
    exact h.kept x u (by rw [hget, if_neg hne, hx])
  · intro x hx
    rw [hnew, Finset.mem_insert] at hx
    rcases hx with rfl | hx
    · exact ⟨v, w, h.kept x v (by rw [hget, if_pos rfl]), computed, hv⟩
    · exact h.new x hx
  · intro x hx hnot
    rw [hnew, Finset.mem_insert, not_or] at hnot
    exact h.others x (by rw [hget, if_neg hnot.1, hx]) hnot.2
  · have hmisses : b.misses = a.misses + 1 + (newKeys F (a.store k v) ks).card := h.misses
    omega
  · have hsize : b.slots.size =
        (a.slots.insert k v).size + (newKeys F (a.store k v) ks).card := h.size
    -- a key that had no value is added at the end
    rw [Table.insert_of_get? absent, Table.size, Table.size, List.length_append,
      List.length_singleton] at hsize
    rw [hcard, Table.size, Table.size, hsize]
    omega
  · have hhits : b.hits + (newKeys F (a.store k v) ks).card =
        a.hits + answered F (a.store k v) ks := h.hits
    rw [answered_store hk] at hhits
    rw [hcard, answered_cons, hk, Bool.or_true, if_pos rfl]
    omega

end Served

/-- **What comes of a list of look-ups does not depend on their order.** -/
theorem ServedEach.fills (h : ServedEach F ks a outcomes b) : Fills F ks a b := by
  induction h with
  | nil a =>
    have hnew : newKeys F a [] = ∅ := rfl
    exact ⟨fun _ _ hk => hk, fun k hk => absurd hk (Finset.notMem_empty k), fun _ hk _ => hk,
      rfl, rfl, rfl⟩
  | cons head _ ih =>
    cases head with
    | hit stored => exact Served.fills_of_hit stored ih
    | miss absent showable computed hv =>
      exact Served.fills_of_miss absent (answers_eq_true_iff.mpr ⟨showable, _, computed⟩) computed
        hv ih
    | failed absent showable computed =>
      exact Served.fills_of_uncounted absent
        (by rw [answers, showable, computed]; rfl) ih
    | unshown absent showable =>
      exact Served.fills_of_uncounted absent (by rw [answers, showable]; rfl) ih

/-- What every request for `k` is answered with, where `b` is the account at the end. -/
def answerOf (F : Key → Except Fault Value) (b : Account) (k : Key) : Except Fault Value :=
  match b.slots.get? k with
  | some v => .ok v
  | none => if k.isShowable then F k else .error .unspellable

theorem answerOf_of_stored {v : Value} (h : b.slots.get? k = some v) : answerOf F b k = .ok v := by
  rw [answerOf, h]

theorem answerOf_of_absent (h : b.slots.get? k = none) :
    answerOf F b k = if k.isShowable then F k else .error .unspellable := by
  rw [answerOf, h]

/-- **Requests for equal keys are answered alike.**  Where all stored values are plain, what a
request is answered with is the value that its key has at the end, or else the fault that kept the
key from getting one. -/
theorem ServedEach.outcomes_eq (h : ServedEach F ks a outcomes b)
    (plain : ∀ k v, a.slots.get? k = some v → v.Matches v) :
    outcomes = ks.map (answerOf F b) := by
  induction h with
  | nil => rfl
  | @cons k ks a a' b outcome outcomes head tail ih =>
    have hfills : Fills F ks a' b := tail.fills
    rw [List.map_cons]
    cases head with
    | @hit v _ stored hplain =>
      rw [ih plain, answerOf_of_stored (hfills.kept k v stored), hplain (plain k v stored)]
    | @miss v w absent showable computed hv =>
      have hget (x : Key) : (a.store k v).slots.get? x = if x = k then some v else a.slots.get? x :=
        Table.get?_insert ..
      have hplain : ∀ x u, (a.store k v).slots.get? x = some u → u.Matches u := by
        intro x u hx
        rw [hget] at hx
        split at hx
        · cases hx
          exact hv.plain
        · exact plain x u hx
      rw [ih hplain, answerOf_of_stored (hfills.kept k v (by rw [hget, if_pos rfl]))]
    | failed absent showable computed =>
      have hnot : k ∉ newKeys F a ks := by
        rw [mem_newKeys, answers, computed, Except.isOk, Except.toBool, Bool.and_false]
        exact fun hmem => Bool.noConfusion hmem.2.2
      rw [ih plain, answerOf_of_absent (hfills.others k absent hnot), if_pos showable, computed]
    | unshown absent showable =>
      have hnot : k ∉ newKeys F a ks := by
        rw [mem_newKeys, answers, showable, Bool.false_and]
        exact fun hmem => Bool.noConfusion hmem.2.2
      rw [ih plain, answerOf_of_absent (hfills.others k absent hnot), showable]
      rfl

/-! ### Two orders, and a new cache -/

/-- Two accounts of a cache are the same, with the same plain values under the same keys and the
same values as before under the others. -/
structure Account.Agrees (b c : Account) : Prop where
  slots : ∀ k, b.slots.get? k = c.slots.get? k ∨
    ∃ v w, b.slots.get? k = some v ∧ c.slots.get? k = some w ∧ v.Matches w
  size : b.slots.size = c.slots.size
  hits : b.hits = c.hits
  misses : b.misses = c.misses

theorem newKeys_perm {ks' : List Key} (h : ks.Perm ks') : newKeys F a ks = newKeys F a ks' := by
  rw [newKeys, newKeys, List.toFinset_eq_of_perm _ _ h]

theorem answered_perm {ks' : List Key} (h : ks.Perm ks') : answered F a ks = answered F a ks' :=
  h.countP_eq _

/-- Two orders of the same requests come to the same. -/
theorem Fills.agrees {ks' : List Key} (h : Fills F ks a b) (h' : Fills F ks' a c)
    (perm : ks.Perm ks') : b.Agrees c := by
  have hmisses := h'.misses
  have hsize := h'.size
  have hhits := h'.hits
  rw [← newKeys_perm perm] at hmisses hsize hhits
  rw [← answered_perm perm] at hhits
  refine ⟨fun k => ?_, h.size.trans hsize.symm, ?_, h.misses.trans hmisses.symm⟩
  · cases hk : a.slots.get? k with
    | some v => exact .inl ((h.kept k v hk).trans (h'.kept k v hk).symm)
    | none =>
      by_cases hnew : k ∈ newKeys F a ks
      · obtain ⟨v, u, hv, hu, hvu⟩ := h.new k hnew
        obtain ⟨w, u', hw, hu', hwu⟩ := h'.new k (newKeys_perm perm ▸ hnew)
        obtain rfl := Except.ok.inj (hu.symm.trans hu')
        exact .inr ⟨v, w, hv, hw, hvu.trans hwu.symm⟩
      · have hnew' : k ∉ newKeys F a ks' := newKeys_perm perm ▸ hnew
        exact .inl ((h.others k hk hnew).trans (h'.others k hk hnew').symm)
  · have := h.hits
    omega

/-- A cache that was new has stored a value and counted a miss for every key that can be shown, and
counted a hit for every other request with such a key, if no computation fails. -/
theorem Fills.of_new (h : Fills F ks {} b) (total : ∀ k, (F k).isOk = true) :
    b.misses = (ks.filter Key.isShowable).toFinset.card ∧ b.slots.size = b.misses ∧
      b.hits = (ks.filter Key.isShowable).length - b.misses := by
  have hanswers : answers F = Key.isShowable := by
    funext k
    rw [answers, total, Bool.and_true]
  have hnew : newKeys F {} ks = (ks.filter Key.isShowable).toFinset := by
    rw [newKeys, hanswers, List.toFinset_filter]
    rfl
  have hanswered : answered F {} ks = (ks.filter Key.isShowable).length := by
    rw [answered, hanswers, ← List.countP_eq_length_filter]
    rfl
  have hmisses := h.misses
  have hsize := h.size
  have hhits := h.hits
  rw [hnew] at hmisses hsize hhits
  rw [hanswered] at hhits
  have hzero : ({} : Account).misses = 0 ∧ ({} : Account).slots.size = 0 ∧
      ({} : Account).hits = 0 := ⟨rfl, rfl, rfl⟩
  omega

end CheckedMemo
