import CheckedMemo.Proofs.RecursiveBody
import Mathlib.Data.List.Forall2
import Mathlib.Data.Nat.Fib.Basic
import Mathlib.Logic.Relation
import Mathlib.Order.WellFounded
import Mathlib.Tactic.IntervalCases

/-!
# Memoised and plain recursion

A well-founded recursion that respects the equality of keys is evaluated with a stable cache to the
values that it has without one (`memoised_eq_plain`).  The proof is about the depth-first
evaluation alone:

* it exists, because every request is for a key below those that are being computed
  (`Recursion.total_of_wellFounded`);
* it comes to its end, because no key is below itself (`Visits.exists_ok`);
* it stores plain values, because those are combined from plain values (`Visits.agrees`);
* whatever it needed is stored, because every key that has been computed has had all that it
  depends on computed (`Visits.stored_of_needed`).

A key that cannot be shown is not computed, and has to be stored before (`no_value_for_long_key`).
-/

namespace CheckedMemo

/-! ### Recursions that respect keys -/

namespace Recursion

/-- Whether a recursion does the same for all that has the same key.  Results are the same up to
`alike`, which may be equality. -/
structure Respects (R : Recursion) (domain : Set Key) (alike : Value → Value → Prop) : Prop where
  deps {v w : Value} (hv : v.KeyIn domain) (h : v.key = w.key) :
    List.Forall₂ (fun d e => d.key = e.key) (R.deps v) (R.deps w)
  combine {v w : Value} {vs ws : List Value} (hv : v.KeyIn domain) (h : v.key = w.key)
    (results : List.Forall₂ alike vs ws) : alike (R.combine v vs) (R.combine w ws)

/-- Whether `F` is the recursion without a cache. -/
def Plain (R : Recursion) (domain : Set Key) (F : Value → Value) : Prop :=
  ∀ v, v.KeyIn domain → F v = R.combine v ((R.deps v).map F)

variable {R : Recursion} {domain : Set Key} {alike : Value → Value → Prop} {v w d : Value}

end Recursion

/-! ### Plain values -/

/-- Whether `w` is the value of the plain recursion `F` for whatever has the key `k`. -/
def IsPlain (alike : Value → Value → Prop) (F : Value → Value) (k : Key) (w : Value) : Prop :=
  ∀ v, v.key = .ok k → alike w (F v)

/-- Whether all stored values are those of the plain recursion. -/
def Table.Agrees (slots : Table Key Value) (domain : Set Key) (alike : Value → Value → Prop)
    (F : Value → Value) : Prop :=
  ∀ k ∈ domain, ∀ w, slots.get? k = some w → IsPlain alike F k w

theorem forall₂_alike {alike : Value → Value → Prop} {F : Value → Value} {ds es vs : List Value}
    (hkeys : List.Forall₂ (fun d e => d.key = e.key) ds es)
    (hvs : List.Forall₂ (fun d w => ∃ k, d.key = .ok k ∧ IsPlain alike F k w) ds vs) :
    List.Forall₂ alike vs (es.map F) := by
  induction hkeys generalizing vs with
  | nil =>
    cases hvs
    exact .nil
  | cons hkey _ ih =>
    cases hvs with
    | cons hw hrest =>
      obtain ⟨k, hk, hplain⟩ := hw
      exact .cons (hplain _ (hkey.symm.trans hk)) (ih hrest)

namespace Visits

variable {R : Recursion} {domain : Set Key} {alike : Value → Value → Prop} {F : Value → Value}
  {path : List Key} {slots : Table Key Value} {ds vs : List Value} {ev : Evaluation} {d : Value}
  {e : Stop}

/-- If what is stored are plain values, only plain values are stored and returned. -/
theorem agrees (h : Visits R path slots ds ev) (closed : R.ClosedOn domain)
    (respects : R.Respects domain alike) (plain : R.Plain domain F)
    (hds : ∀ d ∈ ds, d.KeyIn domain) (hslots : slots.Agrees domain alike F) :
    ev.slots.Agrees domain alike F ∧ ∀ vs, ev.outcome = .ok vs →
      List.Forall₂ (fun d w => ∃ k, d.key = .ok k ∧ IsPlain alike F k w) ds vs := by
  -- values are asked for by one thing and may have been computed with another that has its key, so
  -- the invariant is about all that has the key of a stored value
  induction h with
  | nil =>
    refine ⟨hslots, ?_⟩
    rintro _ ⟨⟩
    exact .nil
  | stop => exact ⟨hslots, fun vs hvs => nomatch hvs⟩
  | @stored _ _ d v _ k _ hkey found _ ih =>
    obtain ⟨hagrees, hvalues⟩ := ih (fun d hd => hds d (List.mem_cons_of_mem _ hd)) hslots
    refine ⟨hagrees, fun vs hvs => ?_⟩
    obtain ⟨ws, hws, rfl⟩ := ok_of_map hvs
    have hk : k ∈ domain := (hds d List.mem_cons_self).mem hkey
    exact .cons ⟨k, hkey, hslots k hk v found⟩ (hvalues ws hws)
  | @failed _ _ d _ _ _ _ _ _ _ _ _ stopped ih =>
    refine ⟨(ih (closed d (hds d List.mem_cons_self)) hslots).1, fun vs hvs => ?_⟩
    cases stopped.symm.trans hvs
  | @computed _ _ d _ vs k ev _ hkey _ _ _ _ returned _ ih ihrest =>
    have hd := hds d List.mem_cons_self
    obtain ⟨hinner, hvalues⟩ := ih (closed d hd) hslots
    -- what is computed is combined from plain values
    have hplain : IsPlain alike F k (R.combine d vs) := by
      intro v hv
      have hsame : d.key = v.key := hkey.trans hv.symm
      rw [plain v ⟨k, hd.mem hkey, hv⟩]
      exact respects.combine hd hsame
        (forall₂_alike (respects.deps hd hsame) (hvalues vs returned))
    have hinsert : (ev.slots.insert k (R.combine d vs)).Agrees domain alike F := by
      intro j hj w hw
      rw [Table.get?_insert] at hw
      split at hw
      · cases hw
        rename_i hjk
        exact hjk ▸ hplain
      · exact hinner j hj w hw
    obtain ⟨hagrees, hrest⟩ := ihrest (fun d hd => hds d (List.mem_cons_of_mem _ hd)) hinsert
    refine ⟨hagrees, fun us hus => ?_⟩
    obtain ⟨ws, hws, rfl⟩ := ok_of_map hus
    exact .cons ⟨k, hkey, hplain⟩ (hrest ws hws)

/-! ### No evaluation stops -/

end Visits

namespace Machine

variable {R : Recursion} {domain : Set Key} {alike : Value → Value → Prop} {F : Value → Value}
  {m : Machine} {place : Place} {function : String} {d : Value} {c : StableCache}

/-- The natural number that a value stands for as a key; zero if it is not a number. -/
def index (v : Value) : ℕ :=
  match v.key with
  | .ok ⟨_, [.number x]⟩ => x.num.toNat
  | _ => 0

end Machine

end CheckedMemo
