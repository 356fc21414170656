import CheckedMemo.Value.Key

/-!
# Equality of keys

When values are equal as keys, without any canonical form: numbers by the rational that they denote,
exactly and whatever their type; what is not a number, and objects, by identity; text and bytes by
their content, never mixed; tuples item by item.  Two values have the same key exactly if they are
equal in this sense (`Value.keyEqual_iff`): the symbols of a value are a prefix code, because a
tuple says how many items follow.
-/

namespace CheckedMemo

/-- The rational that a finite number denotes. -/
def Binary64.rational? : Binary64 → Option Rat
  | .finite negative mantissa exponent _ =>
    some (if negative then -scale mantissa exponent else scale mantissa exponent)
  | .infinite _ => none

namespace Value

/-- The rational that a value denotes as a number; truth values denote one and zero. -/
def rational? : Value → Option Rat
  | .bool b => some (if b then 1 else 0)
  | .int n => some n
  | .real x => x.rational?
  | _ => none

mutual

/-- Whether two values are equal as keys. -/
inductive KeyEqual : Value → Value → Prop where
  | null : KeyEqual .null .null
  | number {v w : Value} {x : Rat} (hv : v.rational? = some x) (hw : w.rational? = some x) :
    KeyEqual v w
  | infinite (negative : Bool) : KeyEqual (.real (.infinite negative)) (.real (.infinite negative))
  | notANumber (serial : Nat) : KeyEqual (.notANumber serial) (.notANumber serial)
  | text (s : String) : KeyEqual (.text s) (.text s)
  | bytes (bs : List UInt8) : KeyEqual (.bytes bs) (.bytes bs)
  | object (address : Nat) : KeyEqual (.object address) (.object address)
  | tuple (serial serial' : Nat) {vs ws : List Value} (items : ItemsEqual vs ws) :
    KeyEqual (.tuple serial vs) (.tuple serial' ws)

/-- Whether two lists have the same length and items that are equal as keys. -/
inductive ItemsEqual : List Value → List Value → Prop where
  | nil : ItemsEqual [] []
  | cons {v w : Value} {vs ws : List Value} (head : KeyEqual v w) (tail : ItemsEqual vs ws) :
    ItemsEqual (v :: vs) (w :: ws)

end

variable {v w : Value} {a : Atom}

/-! ### Values with one symbol -/

theorem atoms_of_atom? (h : v.atom? = some a) : v.atoms = .ok [a] := by
  cases v <;> simp_all [atom?, atoms]

theorem atom?_eq_number_iff {x : Rat} : v.atom? = some (.number x) ↔ v.rational? = some x := by
  cases v with
  | real r => cases r <;> simp [atom?, rational?, Binary64.atom, Binary64.rational?]
  | _ => simp [atom?, rational?]

/-- The value with a symbol that is no number and no beginning of a tuple. -/
def ofAtom? : Atom → Option Value
  | .null => some .null
  | .infinite negative => some (.real (.infinite negative))
  | .notANumber serial => some (.notANumber serial)
  | .text s => some (.text s)
  | .bytes bs => some (.bytes bs)
  | .object address => some (.object address)
  | .number _ | .tuple _ => none

/-- But for numbers, a symbol tells the value. -/
theorem ofAtom?_of_atom? (h : v.atom? = some a) (hne : ∀ x, a ≠ .number x) :
    ofAtom? a = some v := by
  cases v with
  | bool b => exact absurd (Option.some.inj h).symm (hne _)
  | int n => exact absurd (Option.some.inj h).symm (hne _)
  | real r =>
    cases r with
    | finite => exact absurd (Option.some.inj h).symm (hne _)
    | infinite negative => cases h; rfl
  | tuple | list | dict => cases h
  | _ => cases h; rfl

theorem keyEqual_self_of_atom? (h : v.atom? = some a) : v.KeyEqual v := by
  cases v with
  | null => exact .null
  | bool b => exact .number rfl rfl
  | int n => exact .number rfl rfl
  | real r =>
    cases r with
    | finite => exact .number rfl rfl
    | infinite negative => exact .infinite negative
  | notANumber serial => exact .notANumber serial
  | text s => exact .text s
  | bytes bs => exact .bytes bs
  | object address => exact .object address
  | tuple | list | dict => cases h

/-- Values with the same symbol are equal as keys. -/
theorem keyEqual_of_atom? (hv : v.atom? = some a) (hw : w.atom? = some a) : v.KeyEqual w := by
  by_cases hnumber : ∃ x, a = .number x
  · obtain ⟨x, rfl⟩ := hnumber
    exact .number (atom?_eq_number_iff.mp hv) (atom?_eq_number_iff.mp hw)
  · have hne : ∀ x, a ≠ .number x := fun x hx => hnumber ⟨x, hx⟩
    have heq : some v = some w :=
      (ofAtom?_of_atom? hv hne).symm.trans (ofAtom?_of_atom? hw hne)
    exact Option.some.inj heq ▸ keyEqual_self_of_atom? hv

/-- No value that has a symbol starts a tuple. -/
theorem atom?_ne_tuple (size : Nat) : v.atom? ≠ some (.tuple size) := by
  cases v with
  | real r => cases r <;> exact nofun
  | _ => exact nofun

/-- What has symbols has one, or is a tuple of values that have symbols. -/
theorem cases_of_atoms {as : List Atom} (h : v.atoms = .ok as) :
    (∃ a, v.atom? = some a ∧ as = [a]) ∨
      ∃ serial items bs, v = .tuple serial items ∧ itemAtoms items = .ok bs ∧
        as = .tuple items.length :: bs := by
  cases v with
  | tuple serial items =>
    rw [atoms] at h
    cases hitems : itemAtoms items with
    | error u => rw [hitems] at h; cases h
    | ok bs =>
      rw [hitems] at h
      cases h
      exact .inr ⟨serial, items, bs, rfl, hitems, rfl⟩
  | list | dict => cases h
  | _ => cases h; exact .inl ⟨_, rfl, rfl⟩

theorem itemAtoms_cons_eq_ok {vs : List Value} {as : List Atom}
    (h : itemAtoms (v :: vs) = .ok as) :
    ∃ bs cs, v.atoms = .ok bs ∧ itemAtoms vs = .ok cs ∧ as = bs ++ cs := by
  rw [itemAtoms] at h
  cases hv : v.atoms with
  | error u => rw [hv] at h; cases h
  | ok bs =>
    cases hvs : itemAtoms vs with
    | error u => rw [hv, hvs] at h; cases h
    | ok cs =>
      rw [hv, hvs] at h
      cases h
      exact ⟨bs, cs, rfl, rfl, rfl⟩

/-! ### Symbols as a prefix code -/

/-- A value with one symbol is told by it. -/
theorem keyEqual_of_single {r r' bs : List Atom} (hv : v.atom? = some a) (hw : w.atoms = .ok bs)
    (h : a :: r = bs ++ r') : v.KeyEqual w ∧ r = r' := by
  rcases cases_of_atoms hw with ⟨b, hb, rfl⟩ | ⟨serial, items, cs, rfl, -, rfl⟩
  · obtain ⟨rfl, rfl⟩ := List.cons.inj h
    exact ⟨keyEqual_of_atom? hv hb, rfl⟩
  · obtain ⟨rfl, -⟩ := List.cons.inj h
    exact absurd hv (atom?_ne_tuple _)

mutual

/-- Values whose symbols start the same list are equal as keys, and what follows is the same. -/
theorem keyEqual_of_append : ∀ (v w : Value) (as bs r r' : List Atom), v.atoms = .ok as →
    w.atoms = .ok bs → as ++ r = bs ++ r' → v.KeyEqual w ∧ r = r'
  | .null, _, _, _, _, _, hv, hw, h | .bool _, _, _, _, _, _, hv, hw, h
  | .int _, _, _, _, _, _, hv, hw, h | .real _, _, _, _, _, _, hv, hw, h
  | .notANumber _, _, _, _, _, _, hv, hw, h | .text _, _, _, _, _, _, hv, hw, h
  | .bytes _, _, _, _, _, _, hv, hw, h | .object _, _, _, _, _, _, hv, hw, h => by
    cases hv
    exact keyEqual_of_single rfl hw h
  | .tuple serial vs, w, as, bs, r, r', hv, hw, h => by
    rcases cases_of_atoms hv with ⟨_, ⟨⟩, -⟩ | ⟨_, _, cs, ⟨⟩, hcs, rfl⟩
    rcases cases_of_atoms hw with ⟨b, hb, rfl⟩ | ⟨serial', ws, ds, rfl, hds, rfl⟩
    · -- nothing but a tuple starts with the size of one
      obtain ⟨rfl, -⟩ := List.cons.inj h
      exact absurd hb (atom?_ne_tuple _)
    · -- with the sizes the same, the items are told apart one after the other
      obtain ⟨hsize, hrest⟩ := List.cons.inj h
      obtain ⟨hitems, rfl⟩ :=
        itemsEqual_of_append vs ws cs ds r r' (Atom.tuple.inj hsize) hcs hds hrest
      exact ⟨.tuple serial serial' hitems, rfl⟩
  | .list _, _, _, _, _, _, hv, _, _ | .dict _, _, _, _, _, _, hv, _, _ => by cases hv

theorem itemsEqual_of_append : ∀ (vs ws : List Value) (as bs r r' : List Atom),
    vs.length = ws.length → itemAtoms vs = .ok as → itemAtoms ws = .ok bs → as ++ r = bs ++ r' →
      ItemsEqual vs ws ∧ r = r'
  | [], [], _, _, _, _, _, hv, hw, h => by
    cases hv
    cases hw
    exact ⟨.nil, h⟩
  | v :: vs, w :: ws, as, bs, r, r', hlength, hv, hw, h => by
    obtain ⟨as₁, as₂, has₁, has₂, rfl⟩ := itemAtoms_cons_eq_ok hv
    obtain ⟨bs₁, bs₂, hbs₁, hbs₂, rfl⟩ := itemAtoms_cons_eq_ok hw
    rw [List.append_assoc, List.append_assoc] at h
    obtain ⟨hhead, hrest⟩ := keyEqual_of_append v w _ _ _ _ has₁ hbs₁ h
    obtain ⟨htail, hr⟩ :=
      itemsEqual_of_append vs ws _ _ _ _ (Nat.succ.inj hlength) has₂ hbs₂ hrest
    exact ⟨.cons hhead htail, hr⟩
  | [], _ :: _, _, _, _, _, hlength, _, _, _ | _ :: _, [], _, _, _, _, hlength, _, _, _ => by
    cases hlength

end

mutual

/-- Values that are equal as keys have the same symbols. -/
theorem atoms_of_keyEqual : ∀ {v w : Value}, v.KeyEqual w →
    ∃ as, v.atoms = .ok as ∧ w.atoms = .ok as
  | _, _, .null => ⟨_, rfl, rfl⟩
  | _, _, .number hv hw =>
    ⟨_, atoms_of_atom? (atom?_eq_number_iff.mpr hv), atoms_of_atom? (atom?_eq_number_iff.mpr hw)⟩
  | _, _, .infinite _ | _, _, .notANumber _ | _, _, .text _ | _, _, .bytes _ | _, _, .object _ =>
    ⟨_, rfl, rfl⟩
  | .tuple _ vs, .tuple _ ws, .tuple _ _ items => by
    obtain ⟨as, hlength, hvs, hws⟩ := itemAtoms_of_itemsEqual items
    exact ⟨.tuple vs.length :: as, by rw [atoms, hvs]; rfl, by rw [atoms, hws, hlength]; rfl⟩

theorem itemAtoms_of_itemsEqual : ∀ {vs ws : List Value}, ItemsEqual vs ws →
    ∃ as, vs.length = ws.length ∧ itemAtoms vs = .ok as ∧ itemAtoms ws = .ok as
  | _, _, .nil => ⟨[], rfl, rfl, rfl⟩
  | _, _, .cons head tail => by
    obtain ⟨as, hv, hw⟩ := atoms_of_keyEqual head
    obtain ⟨bs, hlength, hvs, hws⟩ := itemAtoms_of_itemsEqual tail
    refine ⟨as ++ bs, congrArg (· + 1) hlength, ?_, ?_⟩
    · rw [itemAtoms, hv, hvs]
      rfl
    · rw [itemAtoms, hw, hws]
      rfl

end

/-! ### Keys -/

/-- **Two values are equal as keys exactly if they have the same key.** -/
theorem keyEqual_iff {v w : Value} : v.KeyEqual w ↔ ∃ k, v.key = .ok k ∧ w.key = .ok k := by
  constructor
  · intro h
    obtain ⟨as, hv, hw⟩ := atoms_of_keyEqual h
    exact ⟨.ofAtoms as, by rw [key, hv]; rfl, by rw [key, hw]; rfl⟩
  · rintro ⟨k, hv, hw⟩
    rw [key] at hv hw
    cases has : v.atoms with
    | error u => rw [has] at hv; cases hv
    | ok as =>
      cases hbs : w.atoms with
      | error u => rw [hbs] at hw; cases hw
      | ok bs =>
        rw [has] at hv
        rw [hbs] at hw
        have hkeys : Key.ofAtoms as = .ofAtoms bs :=
          (Except.ok.inj hv).trans (Except.ok.inj hw).symm
        have happend : as ++ [] = bs ++ [] := congrArg (· ++ []) (Key.ofAtoms_inj.mp hkeys)
        exact (keyEqual_of_append v w as bs [] [] has hbs happend).1

/-- Whether a value can be used as a key. -/
def IsHashable (v : Value) : Prop := ∃ k, v.key = .ok k

theorem KeyEqual.symm {v w : Value} (h : v.KeyEqual w) : w.KeyEqual v := by
  obtain ⟨k, hv, hw⟩ := keyEqual_iff.mp h
  exact keyEqual_iff.mpr ⟨k, hw, hv⟩

/-- Equality of keys is an equivalence on the values that can be used as keys. -/
theorem keyEqual_equivalence :
    Equivalence fun v w : { v : Value // v.IsHashable } => v.1.KeyEqual w.1 where
  refl v := by
    obtain ⟨k, hk⟩ := v.2
    exact keyEqual_iff.mpr ⟨k, hk, hk⟩
  symm h := h.symm
  trans h h' := by
    obtain ⟨k, hu, hv⟩ := keyEqual_iff.mp h
    obtain ⟨k', hv', hw⟩ := keyEqual_iff.mp h'
    obtain rfl : k = k' := Except.ok.inj (hv.symm.trans hv')
    exact keyEqual_iff.mpr ⟨k, hu, hw⟩

end Value

end CheckedMemo
