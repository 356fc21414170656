import CheckedMemo.Proofs.Uses

/-!
# Uses that do the same

Two uses do the same, up to a likeness of values, if they ask for the same keys in the same order
and go on alike from alike values (`Use.Alike`).  On caches with alike values they come to alike
outcomes, and leave alike values (`Use.Alike.comes`).  So a use that does the same as itself, which
is one whose computations depend on their keys alone, has but one outcome, up to the likeness.
-/

namespace CheckedMemo

/-- What is not told apart among values: at least that a value is there, and truth values, are. -/
structure Likeness where
  rel : Value → Value → Prop
  null : rel .null .null
  bool (b : Bool) : rel (.bool b) (.bool b)

variable {L : Likeness}

/-- Every value is told apart from every other. -/
def Likeness.eq : Likeness := ⟨Eq, rfl, fun _ => rfl⟩

/-- Values are told apart as keys are: tuples with the same items are alike. -/
def Likeness.byKey : Likeness := ⟨fun v v' => v.key = v'.key, rfl, fun _ => rfl⟩

/-- Whether two outcomes are alike values or the same fault. -/
inductive Outcome.Alike (L : Likeness) : Except Fault Value → Except Fault Value → Prop where
  | ok {v v' : Value} (h : L.rel v v') : Alike L (.ok v) (.ok v')
  | error (f : Fault) : Alike L (.error f) (.error f)

namespace Outcome.Alike

variable {r r' : Except Fault Value}

theorem map_null (h : Alike L r r') : Alike L (r.map fun _ => .null) (r'.map fun _ => .null) := by
  cases h with
  | ok _ => exact .ok L.null
  | error f => exact .error f

theorem map_bool (r : Except Fault Bool) : Alike L (r.map .bool) (r.map .bool) := by
  cases r with
  | ok b => exact .ok (L.bool b)
  | error f => exact .error f

end Outcome.Alike

theorem Outcome.alike_eq_iff {r r' : Except Fault Value} : Alike .eq r r' ↔ r = r' := by
  constructor
  · rintro (⟨rfl⟩ | f) <;> rfl
  · rintro rfl
    cases r with
    | ok v => exact .ok rfl
    | error f => exact .error f

/-- Whether two stable caches have the same marks and views, and alike values of the same keys. -/
structure StableCache.Alike (L : Likeness) (c c' : StableCache) : Prop where
  guard : c'.guard = c.guard
  pending : c'.pending = c.pending
  slots (k : Key) : Option.Rel L.rel (c.slots.get? k) (c'.slots.get? k)

namespace StableCache.Alike

variable {c c' : StableCache} {r r' : Except Fault Value}

theorem of_empty (guard : Guard) : Alike L { guard } { guard } := ⟨rfl, rfl, fun _ => .none⟩

theorem find_cases (h : c.Alike L c') (q : Request) :
    (∃ f, c.find q = .error f ∧ c'.find q = .error f) ∨
    ∃ o o', c.find q = .ok o ∧ c'.find q = .ok o' ∧ Option.Rel L.rel o o' := by
  unfold find
  rw [h.guard]
  cases c.guard.allow .read q with
  | error f => exact .inl ⟨f, rfl, rfl⟩
  | ok =>
    cases q.index with
    | error f => exact .inl ⟨f, rfl, rfl⟩
    | ok k => exact .inr ⟨_, _, rfl, rfl, h.slots k⟩

theorem reserve_cases (h : c.Alike L c') (t : Thread) (q : Request) (k : Key) :
    (∃ f, c.reserve t q k = .error f ∧ c'.reserve t q k = .error f) ∨
    ∃ d d', c.reserve t q k = .ok d ∧ c'.reserve t q k = .ok d' ∧ d.Alike L d' := by
  unfold reserve label
  rw [h.guard, h.pending]
  cases c.guard.allow .write q with
  | error f => exact .inl ⟨f, rfl, rfl⟩
  | ok =>
    cases c.pending.get? k with
    | some owner => exact .inl ⟨_, rfl, rfl⟩
    | none => exact .inr ⟨_, _, rfl, rfl, rfl, rfl, h.slots⟩

/-- Alike caches answer a request alike. -/
theorem start_cases (h : c.Alike L c') (t : Thread) (q : Request) :
    (∃ f, c.start t q = .error f ∧ c'.start t q = .error f) ∨
    (∃ v v' d d', c.start t q = .ok (.hit v d) ∧ c'.start t q = .ok (.hit v' d') ∧ d.Alike L d') ∨
    ∃ shown k d d', c.start t q = .ok (.miss shown k d) ∧ c'.start t q = .ok (.miss shown k d') ∧
      d.Alike L d' := by
  unfold start
  rw [h.guard]
  cases c.guard.allow .read q with
  | error f => exact .inl ⟨f, rfl, rfl⟩
  | ok =>
    cases q.index with
    | error f => exact .inl ⟨f, rfl, rfl⟩
    | ok k =>
      have hslot := h.slots k
      simp only [ok_bind]
      generalize c.slots.get? k = o at hslot ⊢
      generalize c'.slots.get? k = o' at hslot ⊢
      cases hslot with
      | some => exact .inr (.inl ⟨_, _, _, _, rfl, rfl, rfl, h.pending, h.slots⟩)
      | none =>
        rcases h.reserve_cases t q k with ⟨f, hf, hf'⟩ | ⟨d, d', hd, hd', halike⟩
        · exact .inl ⟨f, by rw [hf]; rfl, by rw [hf']; rfl⟩
        · dsimp only
          rw [hd, hd', ok_bind, ok_bind]
          cases q.spelled with
          | error f => exact .inl ⟨f, rfl, rfl⟩
          | ok shown => exact .inr (.inr ⟨shown, k, d, d', rfl, rfl, halike⟩)

theorem contains_eq (h : c.Alike L c') (q : Request) : c'.contains q = c.contains q := by
  unfold contains
  rcases h.find_cases q with ⟨f, hf, hf'⟩ | ⟨o, o', ho, ho', hrel⟩
  · rw [hf, hf']
  · rw [ho, ho', ok_bind, ok_bind]
    cases hrel <;> rfl

theorem retrieve (h : c.Alike L c') (hint : Option String) (q : Request) :
    Outcome.Alike L (c.retrieve hint q) (c'.retrieve hint q) := by
  unfold StableCache.retrieve
  rw [h.contains_eq]
  unfold contains peek label
  rw [h.guard]
  rcases h.find_cases q with ⟨f, hf, hf'⟩ | ⟨o, o', ho, ho', hrel⟩
  · rw [hf, hf']
    exact .error f
  · rw [ho, ho']
    cases hrel with
    | some hv => exact .ok hv
    | none => exact .error _

/-- The value that a key has after a deposit. -/
theorem getD_slots (h : c.Alike L c') (k : Key) {v v' : Value} (hv : L.rel v v') :
    L.rel ((c.slots.get? k).getD v) ((c'.slots.get? k).getD v') := by
  have hslot := h.slots k
  generalize c.slots.get? k = o at hslot ⊢
  generalize c'.slots.get? k = o' at hslot ⊢
  cases hslot with
  | some h => exact h
  | none => exact hv

theorem deposit (h : c.Alike L c') (k : Key) {v v' : Value} (hv : L.rel v v') :
    (c.deposit k v).Alike L (c'.deposit k v') := by
  refine ⟨h.guard, congrArg (·.erase k) h.pending, fun x => ?_⟩
  rw [get?_slots_deposit, get?_slots_deposit]
  split
  · exact .some (h.getD_slots k hv)
  · exact h.slots x

/-- Computations with alike outcomes end alike for alike caches. -/
theorem finish (h : c.Alike L c') (shown : Spelled) (k : Key) (hr : Outcome.Alike L r r') :
    Outcome.Alike L (c.finish shown k r).outcome (c'.finish shown k r').outcome ∧
      (c.finish shown k r).cache.Alike L (c'.finish shown k r').cache := by
  unfold StableCache.finish
  rw [h.guard]
  cases c.guard.allow .write shown.request with
  | error f => cases hr <;> exact ⟨.error f, h⟩
  | ok =>
    cases hr with
    | error f => exact ⟨.error f, h.guard, congrArg (·.erase k) h.pending, h.slots⟩
    | ok hv =>
      have hdeposit := h.deposit k hv
      exact ⟨.ok (hdeposit.getD_slots k hv), hdeposit⟩

end StableCache.Alike

/-! ### Uses -/

/-- Whether two uses ask for the same keys, and go on alike from values that are alike. -/
inductive Use.Alike (L : Likeness) : Use → Use → Prop where
  | other {p p' : Program} {outcomes outcomes' : Set (Except Fault Value)}
    (h : ∀ r ∈ outcomes, ∀ r' ∈ outcomes', Outcome.Alike L r r') :
    Alike L (.other p outcomes) (.other p' outcomes')
  | bind {first first' : Use} {next next' : Value → Use} (hfirst : Alike L first first')
    (hnext : ∀ v v', L.rel v v' → Alike L (next v) (next' v')) :
    Alike L (.bind first next) (.bind first' next')
  | attempt {body body' : Use} (kinds : List Kind) {handler handler' : Fault → Use}
    (hbody : Alike L body body') (hhandler : ∀ f, Alike L (handler f) (handler' f)) :
    Alike L (.attempt body kinds handler) (.attempt body' kinds handler')
  | populate {key : Value} {compute compute' : Value → Use}
    (hcompute : Alike L (compute key) (compute' key)) :
    Alike L (.populate key compute) (.populate key compute')
  | retrieve (key : Value) : Alike L (.retrieve key) (.retrieve key)
  | isPopulated (key : Value) : Alike L (.isPopulated key) (.isPopulated key)

/-- **Uses that do the same come to the same**, up to a likeness of values, on caches that are the
same up to it. -/
theorem Use.Alike.comes {t : Thread} {hint : Option String} {u u' : Use} {c c' : StableCache}
    {r r' : Except Fault Value × StableCache} (h : u.Alike L u') (hc : c.Alike L c')
    (hr : u.Comes t hint c r) (hr' : u'.Comes t hint c' r') :
    Outcome.Alike L r.1 r'.1 ∧ r.2.Alike L r'.2 := by
  -- on the likeness of the uses; their first parts leave other caches, alike again, to the rest
  induction h generalizing c c' r r' with
  | other h =>
    cases hr with
    | other hr =>
      cases hr' with
      | other hr' => exact ⟨h _ hr _ hr', hc⟩
  | bind _ _ hfirst hnext =>
    cases hr with
    | bind hr hv =>
      cases hr' with
      | bind hr' hv' =>
        obtain ⟨houtcome, hcache⟩ := hfirst hc hr hr'
        cases houtcome with
        | ok hrel => exact hnext _ _ hrel hcache hv hv'
      | stop hr' => nomatch (hfirst hc hr hr').1
    | stop hr =>
      cases hr' with
      | bind hr' => nomatch (hfirst hc hr hr').1
      | stop hr' => exact hfirst hc hr hr'
  | attempt kinds _ _ hbody hhandler =>
    -- one body fails exactly if the other one does, and then in the same way
    cases hr with
    | attempt hr =>
      cases hr' with
      | attempt hr' => exact hbody hc hr hr'
      | handle hr' | pass hr' => nomatch (hbody hc hr hr').1
    | handle hr hkind hf =>
      cases hr' with
      | attempt hr' => nomatch (hbody hc hr hr').1
      | handle hr' _ hf' =>
        obtain ⟨houtcome, hcache⟩ := hbody hc hr hr'
        cases houtcome with
        | error => exact hhandler _ hcache hf hf'
      | pass hr' hkind' =>
        cases (hbody hc hr hr').1 with
        | error => cases hkind.symm.trans hkind'
    | pass hr hkind =>
      cases hr' with
      | attempt hr' => nomatch (hbody hc hr hr').1
      | handle hr' hkind' =>
        cases (hbody hc hr hr').1 with
        | error => cases hkind.symm.trans hkind'
      | pass hr' => exact hbody hc hr hr'
  | populate _ hcompute =>
    rcases hc.start_cases t _ with ⟨f, hf, hf'⟩ | ⟨_, _, d, d', hd, hd', hcache⟩ |
      ⟨shown, k, d, d', hd, hd', hcache⟩
    · obtain rfl := hr.of_refused hf
      obtain rfl := hr'.of_refused hf'
      exact ⟨.error f, hc⟩
    · obtain rfl := hr.of_hit hd
      obtain rfl := hr'.of_hit hd'
      exact ⟨.ok L.null, hcache⟩
    · obtain ⟨q, hq, rfl⟩ := hr.of_miss hd
      obtain ⟨q', hq', rfl⟩ := hr'.of_miss hd'
      obtain ⟨houtcome, hcache'⟩ := hcompute hcache hq hq'
      obtain ⟨hfinish, hend⟩ := hcache'.finish shown k houtcome
      exact ⟨hfinish.map_null, hend⟩
  | retrieve key =>
    cases hr
    cases hr'
    exact ⟨hc.retrieve hint _, hc⟩
  | isPopulated key =>
    cases hr
    cases hr'
    rw [hc.contains_eq]
    exact ⟨.map_bool _, hc⟩

end CheckedMemo
