/-!
# Labels

A cell or cache is known by its label in messages and in log events.  The label of a cache that
belongs to one thread names the thread behind a text of its own.
-/

namespace CheckedMemo

/-- A thread, known by its name. -/
abbrev Thread := String

/-- The label of a cell or cache. -/
structure Label where
  base : String
  /-- The thread that the cache belongs to, if it belongs to one. -/
  thread : Option Thread := none
  deriving DecidableEq, Repr

/-- A text is a label that names no thread. -/
instance : Coe String Label := ⟨fun base => { base }⟩

/-- A label as a text. -/
def Label.text (l : Label) : String :=
  match l.thread with
  | none => l.base
  | some thread => s!"{l.base}[thread={thread}]"

end CheckedMemo
