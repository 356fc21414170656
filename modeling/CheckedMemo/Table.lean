/-!
# Insertion-ordered tables

`Table α β` is a finite map kept as the list of its entries in the order in which their keys were
first inserted.  Replacing the value of a key keeps the key's place; erasing a key and inserting it
again moves it to the end.  The view of a table is `get?`: each operation comes with the equation
that says what it does to a look-up (`get?_insert`, `get?_insertIfNew`, `get?_erase`).
-/

namespace CheckedMemo

/-- A finite map that remembers the order in which its keys were first inserted. -/
structure Table (α β : Type) where
  /-- The entries, oldest key first. -/
  entries : List (α × β)

namespace Table

variable {α β : Type} [DecidableEq α]

instance : EmptyCollection (Table α β) := ⟨⟨[]⟩⟩

instance : Inhabited (Table α β) := ⟨∅⟩

/-- The value of the first entry for `a` in a list of entries. -/
@[specialize]
def lookup (a : α) : List (α × β) → Option β
  | [] => none
  | e :: rest => if e.1 = a then some e.2 else lookup a rest

/-- Replaces the value of `a` where it stands, or adds the entry at the end. -/
@[specialize]
def put (a : α) (b : β) : List (α × β) → List (α × β)
  | [] => [(a, b)]
  | e :: rest => if e.1 = a then (a, b) :: rest else e :: put a b rest

/-- Drops every entry for `a`. -/
@[specialize]
def drop (a : α) : List (α × β) → List (α × β)
  | [] => []
  | e :: rest => if e.1 = a then drop a rest else e :: drop a rest

/-- The value stored for `a`, if any. -/
@[inline]
def get? (t : Table α β) (a : α) : Option β := lookup a t.entries

/-- Whether `a` has a value. -/
@[inline]
def contains (t : Table α β) (a : α) : Bool := (t.get? a).isSome

/-- The keys, oldest first. -/
def keys (t : Table α β) : List α := t.entries.map Prod.fst

/-- The number of entries. -/
def size (t : Table α β) : Nat := t.entries.length

/-- The table with `a` mapped to `b`. -/
@[inline]
def insert (t : Table α β) (a : α) (b : β) : Table α β := ⟨put a b t.entries⟩

/-- The table with `a` mapped to `b`, unless `a` already has a value. -/
@[inline]
def insertIfNew (t : Table α β) (a : α) (b : β) : Table α β :=
  if t.contains a then t else t.insert a b

/-- The table without `a`. -/
@[inline]
def erase (t : Table α β) (a : α) : Table α β := ⟨drop a t.entries⟩

/-- The table of a list of entries; a later entry for a key replaces the earlier value. -/
def ofList (es : List (α × β)) : Table α β := es.foldl (fun t e => t.insert e.1 e.2) ∅

/-! ### Look-ups -/

@[simp] theorem get?_empty (a : α) : (∅ : Table α β).get? a = none := rfl

theorem lookup_put (a : α) (b : β) (es : List (α × β)) (x : α) :
    lookup x (put a b es) = if x = a then some b else lookup x es := by
  induction es with
  | nil => simp [put, lookup, eq_comm]
  | cons e rest ih => grind [put, lookup]

/-- After an insertion the inserted key has the inserted value and every other key the old one. -/
@[simp] theorem get?_insert (t : Table α β) (a : α) (b : β) (x : α) :
    (t.insert a b).get? x = if x = a then some b else t.get? x :=
  lookup_put a b t.entries x

theorem lookup_drop (a : α) (es : List (α × β)) (x : α) :
    lookup x (drop a es) = if x = a then none else lookup x es := by
  induction es with
  | nil => simp [drop, lookup]
  | cons e rest ih => grind [drop, lookup]

/-- After an erasure the erased key has no value and every other key the old one. -/
@[simp] theorem get?_erase (t : Table α β) (a x : α) :
    (t.erase a).get? x = if x = a then none else t.get? x :=
  lookup_drop a t.entries x

/-- Inserting only if new never changes the value of a key that has one. -/
@[simp] theorem get?_insertIfNew (t : Table α β) (a : α) (b : β) (x : α) :
    (t.insertIfNew a b).get? x = if x = a then some ((t.get? a).getD b) else t.get? x := by
  unfold insertIfNew contains
  by_cases hx : x = a
  · subst hx
    cases h : t.get? x <;> simp [h]
  · split <;> simp [hx]

end Table

end CheckedMemo
