import CheckedMemo.Log.Level
import Mathlib.Data.List.Basic
import Mathlib.Data.List.Infix

/-!
# Upper case

Texts are put in upper case character by character, and one character may become several.  Besides
the letters of ASCII, only 17 characters have a form with one of the letters `A` to `Z` in it
(`UpperCase.specialForms`); of any other form it is enough to know that it has none (`UpperCase`).
Any such mapping finds the names of the levels in the same texts as `capitalize` does, which knows
two of the 17 only (`UpperCase.text_eq_name_iff`): the forms of the others either hold more than
letters of ASCII, or are two letters that stand nowhere side by side in the name of a level.
-/

namespace CheckedMemo.Text

/-! ### Letters of ASCII -/

theorem toNat_toUpper (c : Char) :
    c.toUpper.toNat = if 97 ≤ c.toNat ∧ c.toNat ≤ 122 then c.toNat - 32 else c.toNat := by
  have hval : (97 ≤ c.toNat ∧ c.toNat ≤ 122) ↔ 'a'.val ≤ c.val ∧ c.val ≤ 'z'.val := Iff.rfl
  unfold Char.toUpper
  by_cases h : 97 ≤ c.toNat ∧ c.toNat ≤ 122
  · rw [dif_pos (hval.mp h), if_pos h]
    show (c.val + ('A'.val - 'a'.val)).toNat = c.toNat - 32
    have hc : c.val.toNat = c.toNat := rfl
    have hshift : ('A'.val - 'a'.val).toNat = 2 ^ 32 - 32 := by decide
    rw [UInt32.toNat_add, hshift, hc]
    omega
  · rw [dif_neg (mt hval.mpr h), if_neg h]

/-- Outside of ASCII nothing is changed. -/
theorem toUpper_of_le {c : Char} (h : 128 ≤ c.toNat) : c.toUpper = c := by
  refine Char.toNat_inj.mp ?_
  rw [toNat_toUpper, if_neg (by omega)]

theorem capitalChar_of_lt {c : Char} (h : c.toNat < 128) : capitalChar c = c.toUpper := by
  have hdotless : c ≠ '\u0131' := by
    rintro rfl
    exact absurd h (by decide)
  have hlong : c ≠ '\u017f' := by
    rintro rfl
    exact absurd h (by decide)
  rw [capitalChar, if_neg hdotless, if_neg hlong]

/-! ### Mappings to upper case -/

/-- The characters outside of ASCII that have a letter of `A` to `Z` in their upper-case form, with
this form: the dotless i, the long s, the sharp s, letters with marks for which there is no single
capital, and ligatures. -/
def specialForms : List (Char × List Char) :=
  [('\u0131', ['I']), ('\u017f', ['S']), ('\u00df', ['S', 'S']), ('\u0149', ['\u02bc', 'N']),
    ('\u01f0', ['J', '\u030c']), ('\u1e96', ['H', '\u0331']), ('\u1e97', ['T', '\u0308']),
    ('\u1e98', ['W', '\u030a']), ('\u1e99', ['Y', '\u030a']), ('\u1e9a', ['A', '\u02be']),
    ('\ufb00', ['F', 'F']), ('\ufb01', ['F', 'I']), ('\ufb02', ['F', 'L']),
    ('\ufb03', ['F', 'F', 'I']), ('\ufb04', ['F', 'F', 'L']), ('\ufb05', ['S', 'T']),
    ('\ufb06', ['S', 'T'])]

/-- A mapping to upper case: any one that has the right forms where letters of `A` to `Z` are
concerned. -/
structure UpperCase where
  /-- The upper-case form of a character. -/
  form : Char → List Char
  ascii : ∀ c : Char, c.toNat < 128 → form c = [c.toUpper]
  special : ∀ e ∈ specialForms, form e.1 = e.2
  foreign : ∀ c : Char, 128 ≤ c.toNat → (∀ e ∈ specialForms, c ≠ e.1) →
    form c ≠ [] ∧ ∀ d ∈ form c, d.isUpper = false

namespace UpperCase

variable (u : UpperCase) {c : Char} {l : Level}

/-- A text in upper case. -/
def text (s : String) : String := String.ofList (s.toList.flatMap u.form)

theorem form_of_lt (h : c.toNat < 128) : u.form c = [capitalChar c] := by
  rw [u.ascii c h, capitalChar_of_lt h]

theorem isUpper_of_mem_name {d : Char} (h : d ∈ l.name.toList) : d.isUpper = true := by
  have hall : l.name.toList.all Char.isUpper = true := by cases l <;> decide
  exact List.all_eq_true.mp hall d h

/-- What stands in the name of a level is no upper-case form of a special character but the two that
have a single letter. -/
theorem special_of_infix :
    ∀ e ∈ specialForms, e.2 <:+: l.name.toList → e.2 = [capitalChar e.1] := by
  cases l <;> decide

/-- A character whose upper-case form stands in the name of a level has no other capital. -/
theorem form_of_infix (h : u.form c <:+: l.name.toList) : u.form c = [capitalChar c] := by
  by_cases hascii : c.toNat < 128
  · exact u.form_of_lt hascii
  · by_cases hspecial : ∃ e ∈ specialForms, c = e.1
    · obtain ⟨e, he, rfl⟩ := hspecial
      rw [u.special e he] at h ⊢
      exact special_of_infix e he h
    · push Not at hspecial
      obtain ⟨hne, hforeign⟩ := u.foreign c (Nat.le_of_not_lt hascii) hspecial
      obtain ⟨d, hd⟩ := List.exists_mem_of_ne_nil _ hne
      have hupper : d.isUpper = true := isUpper_of_mem_name (h.subset hd)
      rw [hforeign d hd] at hupper
      cases hupper

/-- A character whose capital stands in the name of a level has it for its upper-case form. -/
theorem form_of_mem (h : capitalChar c ∈ l.name.toList) : u.form c = [capitalChar c] := by
  by_cases hascii : c.toNat < 128
  · exact u.form_of_lt hascii
  · by_cases hdotless : c = '\u0131'
    · exact hdotless ▸ u.special ('\u0131', ['I']) (by decide)
    · by_cases hlong : c = '\u017f'
      · exact hlong ▸ u.special ('\u017f', ['S']) (by decide)
      · -- any other character is kept, and is none of the letters of the name
        have hascii := Nat.le_of_not_lt hascii
        rw [capitalChar, if_neg hdotless, if_neg hlong, toUpper_of_le hascii] at h
        have hupper : c.isUpper = true := isUpper_of_mem_name h
        have hle : c.toNat ≤ 90 := (of_decide_eq_true hupper).2
        omega

/-- **A text is the name of a level in upper case exactly if its capitals are.** -/
theorem text_eq_name_iff {s : String} : u.text s = l.name ↔ capitalize s = l.name := by
  have hmap (h : ∀ c ∈ s.toList, u.form c = [capitalChar c]) : u.text s = capitalize s := by
    rw [text, capitalize, List.flatMap_congr h, ← List.map_eq_flatMap]
  constructor
  · intro h
    rw [← hmap, h]
    intro c hc
    refine u.form_of_infix (l := l) ?_
    rw [← h, text, String.toList_ofList]
    exact List.infix_flatMap_of_mem hc u.form
  · intro h
    rw [hmap, h]
    intro c hc
    refine u.form_of_mem (l := l) ?_
    rw [← h, capitalize, String.toList_ofList]
    exact List.mem_map_of_mem hc

/-- The mapping that keeps every character outside of ASCII but the special ones. -/
def latin : UpperCase where
  form c := if c.toNat < 128 then [c.toUpper] else (specialForms.lookup c).getD [c]
  ascii _ h := if_pos h
  special := by decide
  foreign c h hspecial := by
    have hnone : specialForms.lookup c = none := by
      rw [List.lookup_eq_none_iff]
      exact fun e he => bne_iff_ne.mpr (hspecial e he)
    rw [if_neg (Nat.not_lt.mpr h), hnone, Option.getD_none]
    refine ⟨List.cons_ne_nil _ _, fun d hd => ?_⟩
    rw [List.mem_singleton.mp hd]
    refine decide_eq_false fun hupper => ?_
    have hle : c.toNat ≤ 90 := hupper.2
    omega

end UpperCase

end CheckedMemo.Text
