import CheckedMemo.Session.Basic
import Mathlib.Data.Rat.Cast.Order
import Mathlib.Algebra.Order.Ring.Abs
import Mathlib.Tactic.NormNum

/-!
# The text of keys

Whether a key can be shown depends on the key alone, not on how its value is spelled
(`Memory.isSome_text?`): the spellings of a key differ in numbers only, and an integer that a binary
number is equal to has few digits.  So what was shown under one spelling can be shown under every
other (`Session.spelled_isOk_iff`), whatever has happened to the memory in between.
-/

namespace CheckedMemo

/-- Whether a symbol of a key can be shown: an integer must not have too many digits. -/
def Atom.isShowable : Atom → Bool
  | .number x => x.den ≠ 1 || !Text.exceedsDigits Text.maxDigits x.num.natAbs
  | _ => true

/-- Whether every symbol of a key can be shown. -/
def Key.isShowable (k : Key) : Bool := k.atoms.all Atom.isShowable

/-! ### Numbers -/

/-- A number of 64 bits is below the power of two that is one past the greatest exponent. -/
theorem Binary64.scale_lt {mantissa : Nat} {exponent : Int} (h : Fits mantissa exponent) :
    0 ≤ scale mantissa exponent ∧ scale mantissa exponent < 2 ^ 1024 := by
  obtain ⟨hm, -, he⟩ := h
  have hpow : (0 : ℚ) < (2 : ℚ) ^ exponent := Rat.zpow_pos (by norm_num)
  have hm' : (mantissa : ℚ) < 2 ^ 53 := by
    have : mantissa < 2 ^ 53 := hm
    exact_mod_cast this
  -- the exponent may be negative, and the power is at most one then
  have he' : (2 : ℚ) ^ exponent ≤ 2 ^ 971 := by
    obtain ⟨n, rfl | rfl⟩ := exponent.eq_nat_or_neg
    · have hn : n ≤ 971 := by simpa [maxExponent] using he
      rw [Rat.zpow_natCast]
      exact pow_le_pow_right₀ (by norm_num) hn
    · rw [Rat.zpow_neg, Rat.zpow_natCast]
      exact (inv_le_one_of_one_le₀ (one_le_pow₀ (by norm_num))).trans (one_le_pow₀ (by norm_num))
  refine ⟨mul_nonneg (Nat.cast_nonneg _) hpow.le, ?_⟩
  calc scale mantissa exponent < 2 ^ 53 * (2 : ℚ) ^ exponent := mul_lt_mul_of_pos_right hm' hpow
    _ ≤ 2 ^ 53 * 2 ^ 971 := mul_le_mul_of_nonneg_left he' (by norm_num)
    _ = 2 ^ 1024 := (pow_add 2 53 971).symm

/-- A number below a power of two does not have more digits than the exponent. -/
theorem exceedsDigits_eq_false {a count n : ℕ} (ha : a ≤ count + 1) (h : n < 2 ^ a) :
    Text.exceedsDigits (count + 1) n = false := by
  rw [Bool.eq_false_iff, ne_eq, Text.exceedsDigits_succ_iff, Nat.not_le]
  calc n < 2 ^ a := h
    _ ≤ Nat.pow 10 a := Nat.pow_le_pow_left (by norm_num) a
    _ ≤ Nat.pow 10 (count + 1) := Nat.pow_le_pow_right (by norm_num) ha

/-- A rational of moderate size can be shown. -/
theorem Atom.isShowable_number {x : ℚ} (h : |x| < 2 ^ 1024) :
    (Atom.number x).isShowable = true := by
  by_cases hden : x.den = 1
  · have hx : (x.num : ℚ) = x := Rat.coe_int_num_of_den_eq_one hden
    have hlt : x.num.natAbs < 2 ^ 1024 := by
      have habs : ((x.num.natAbs : ℕ) : ℚ) = |x| := by
        rw [Nat.cast_natAbs, Int.cast_abs, hx]
      rw [← habs] at h
      exact_mod_cast h
    have hfew : Text.exceedsDigits Text.maxDigits x.num.natAbs = false :=
      exceedsDigits_eq_false (by decide) hlt
    simp [isShowable, hfew]
  · simp [isShowable, hden]

theorem Binary64.isShowable_atom (x : Binary64) : x.atom.isShowable = true := by
  cases x with
  | infinite negative => rfl
  | finite negative mantissa exponent fits =>
    obtain ⟨h0, hlt⟩ := scale_lt fits
    apply Atom.isShowable_number
    cases negative
    · simpa [abs_of_nonneg h0] using hlt
    · simpa [abs_of_nonneg h0] using hlt

/-! ### Snapshots -/

/-- The text of an integer is there exactly if its symbol can be shown. -/
theorem isSome_numeral? (n : ℤ) :
    (Text.numeral? n).isSome = (Atom.number n).isShowable := by
  by_cases h : Text.exceedsDigits Text.maxDigits n.natAbs = true <;>
    simp [Text.numeral?, Atom.isShowable, h]

theorem isSome_toText?_tuple (items : List Snapshot) :
    (Snapshot.tuple items).toText?.isSome = (Snapshot.toTexts? items).isSome := by
  rw [Snapshot.toText?, Option.isSome_map]

theorem isSome_toTexts?_cons (s : Snapshot) (rest : List Snapshot) :
    (Snapshot.toTexts? (s :: rest)).isSome =
      (s.toText?.isSome && (Snapshot.toTexts? rest).isSome) := by
  rw [Snapshot.toTexts?]
  cases s.toText? <;> cases Snapshot.toTexts? rest <;> rfl

mutual

/-- The snapshot of a value with a key has a text exactly if the symbols of the key can be shown.
Such a value stands inside no container, so no tuple in it is cut off. -/
theorem isSome_toText?_snapshotBy (look : List Enclosure → Nat → Snapshot) :
    ∀ (v : Value) (near : List Enclosure) (as : List Atom), v.atoms = .ok as →
      (v.snapshotBy (.of false look) [] near).toText?.isSome = as.all Atom.isShowable
  | .null, _, _, h | .notANumber _, _, _, h | .text _, _, _, h | .bytes _, _, _, h
  | .object _, _, _, h => by
    obtain rfl := Except.ok.inj h
    rfl
  | .bool b, _, _, h => by
    obtain rfl := Except.ok.inj h
    cases b <;> rfl
  | .int n, _, _, h => by
    obtain rfl := Except.ok.inj h
    rw [Value.snapshotBy, Snapshot.toText?, isSome_numeral?, List.all_cons, List.all_nil,
      Bool.and_true]
  | .real x, _, _, h => by
    obtain rfl := Except.ok.inj h
    rw [Value.snapshotBy, Snapshot.toText?, List.all_cons, List.all_nil, x.isShowable_atom]
    rfl
  | .tuple serial items, near, as, h => by
    rw [Value.atoms] at h
    cases hitems : Value.itemAtoms items with
    | error u => rw [hitems] at h; cases h
    | ok bs =>
      rw [hitems] at h
      obtain rfl := Except.ok.inj h
      rw [Value.snapshotBy, if_neg (by simp), isSome_toText?_tuple,
        isSome_toTexts?_snapshotsBy look items _ bs hitems]
      rfl
  | .list _, _, _, h | .dict _, _, _, h => by cases h

theorem isSome_toTexts?_snapshotsBy (look : List Enclosure → Nat → Snapshot) :
    ∀ (vs : List Value) (near : List Enclosure) (as : List Atom), Value.itemAtoms vs = .ok as →
      (Snapshot.toTexts? (Value.snapshotsBy (.of false look) [] near vs)).isSome =
        as.all Atom.isShowable
  | [], _, _, h => by
    obtain rfl := Except.ok.inj h
    rfl
  | v :: vs, near, as, h => by
    rw [Value.itemAtoms] at h
    cases hv : v.atoms with
    | error u => rw [hv] at h; cases h
    | ok bs =>
      cases hvs : Value.itemAtoms vs with
      | error u => rw [hv, hvs] at h; cases h
      | ok cs =>
        rw [hv, hvs] at h
        obtain rfl := Except.ok.inj h
        rw [Value.snapshotsBy, isSome_toTexts?_cons, isSome_toText?_snapshotBy look v near bs hv,
          isSome_toTexts?_snapshotsBy look vs near cs hvs, List.all_append]

end

/-- **Whether a key can be shown depends on the key alone.** -/
theorem Memory.isSome_text? (m : Memory) {v : Value} {k : Key} (h : v.key = .ok k) :
    (m.text? v).isSome = k.isShowable := by
  unfold Value.key at h
  cases hv : v.atoms with
  | error u => rw [hv] at h; cases h
  | ok as =>
    rw [hv] at h
    obtain rfl := Except.ok.inj h
    exact isSome_toText?_snapshotBy _ v [] as hv

/-- A request is shown exactly if its key can be. -/
theorem Session.spelled_isOk_iff (s : Session) {v : Value} {k : Key} (h : v.key = .ok k) :
    (∃ spelled, (s.request v).spelled = .ok spelled) ↔ k.isShowable = true := by
  rw [← s.memory.isSome_text? h]
  have htext : (s.request v).text?.get = s.memory.text? v := rfl
  unfold Request.spelled
  rw [htext]
  cases s.memory.text? v <;> simp

theorem Session.spelled_eq_error {s : Session} {v : Value} {k : Key} (hkey : v.key = .ok k)
    (h : k.isShowable = false) : (s.request v).spelled = .error .unspellable := by
  have hnot : ¬∃ shown, (s.request v).spelled = .ok shown := by
    rw [s.spelled_isOk_iff hkey, h]
    exact Bool.false_ne_true
  unfold Request.spelled at hnot ⊢
  split at hnot
  · exact absurd ⟨_, rfl⟩ hnot
  · rfl

/-! ### The text of a key -/

mutual

/-- The snapshot of a value with a key does not depend on how containers are seen. -/
theorem snapshotBy_congr (look look' : List Enclosure → Nat → Snapshot) :
    ∀ (v : Value) (near : List Enclosure) (as : List Atom), v.atoms = .ok as →
      v.snapshotBy (.of false look) [] near = v.snapshotBy (.of false look') [] near
  | .null, _, _, _ | .notANumber _, _, _, _ | .text _, _, _, _ | .bytes _, _, _, _
  | .object _, _, _, _ | .bool _, _, _, _ | .int _, _, _, _ | .real _, _, _, _ => rfl
  | .tuple serial items, near, as, h => by
    rw [Value.atoms] at h
    cases hitems : Value.itemAtoms items with
    | error u => rw [hitems] at h; cases h
    | ok bs =>
      rw [Value.snapshotBy, Value.snapshotBy, snapshotsBy_congr look look' items _ bs hitems]
  | .list _, _, _, h | .dict _, _, _, h => by cases h

theorem snapshotsBy_congr (look look' : List Enclosure → Nat → Snapshot) :
    ∀ (vs : List Value) (near : List Enclosure) (as : List Atom), Value.itemAtoms vs = .ok as →
      Value.snapshotsBy (.of false look) [] near vs = Value.snapshotsBy (.of false look') [] near vs
  | [], _, _, _ => rfl
  | v :: vs, near, as, h => by
    rw [Value.itemAtoms] at h
    cases hv : v.atoms with
    | error u => rw [hv] at h; cases h
    | ok bs =>
      cases hvs : Value.itemAtoms vs with
      | error u => rw [hv, hvs] at h; cases h
      | ok cs =>
        rw [Value.snapshotsBy, Value.snapshotsBy, snapshotBy_congr look look' v near bs hv,
          snapshotsBy_congr look look' vs near cs hvs]

end

/-- The text of a value with a key is the same in every memory. -/
theorem Memory.text?_congr (m m' : Memory) {v : Value} {k : Key} (h : v.key = .ok k) :
    m.text? v = m'.text? v := by
  unfold Value.key at h
  cases hv : v.atoms with
  | error u => rw [hv] at h; cases h
  | ok as => exact congrArg Snapshot.toText? (snapshotBy_congr _ _ v [] as hv)

/-! ### A key that cannot be shown -/

/-- The least natural number that has too many digits to be written. -/
@[irreducible] def longNumber : ℕ := Nat.pow 10 Text.maxDigits

/-- A key that cannot be shown. -/
def longKey : Value := .int (Int.ofNat longNumber)

theorem exceedsDigits_pow {count : ℕ} (h : 0 < count) :
    Text.exceedsDigits count (Nat.pow 10 count) = true := by
  cases count with
  | zero => exact absurd h (lt_irrefl 0)
  | succ count => exact (Text.exceedsDigits_succ_iff ..).mpr le_rfl

theorem exceedsDigits_longNumber : Text.exceedsDigits Text.maxDigits longNumber = true := by
  have hpos : 0 < Text.maxDigits := by decide
  unfold longNumber
  -- the limit stays a name, so that its power is not worked out
  generalize Text.maxDigits = count at hpos ⊢
  exact exceedsDigits_pow hpos

theorem not_isShowable_of_longKey {k : Key} (h : longKey.key = .ok k) : k.isShowable = false := by
  have hnumber : (Atom.number (Int.ofNat longNumber)).isShowable = false := by
    rw [← isSome_numeral?, Text.numeral?]
    exact congrArg Option.isSome (if_pos exceedsDigits_longNumber)
  obtain rfl := Except.ok.inj h
  rw [Key.isShowable, List.all_eq_false]
  exact ⟨_, List.mem_singleton_self _, by rw [hnumber]; decide⟩

theorem Memory.text?_longKey (m : Memory) : m.text? longKey = none := by
  obtain ⟨k, hk⟩ : ∃ k, longKey.key = .ok k := ⟨_, rfl⟩
  rw [← Option.not_isSome_iff_eq_none, m.isSome_text? hk, not_isShowable_of_longKey hk]
  decide

end CheckedMemo
