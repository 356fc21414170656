/-!
# Text on a terminal

A terminal takes some characters as codes for the style of what follows and does not show them: an
escape, a bracket, numbers with semicolons between them, and an `m`.  `dropStyles` drops these
codes.  `splitLines` cuts a text at every line feed, and at nothing else; joining the pieces again
gives the text back.
-/

namespace CheckedMemo.Text

/-! ### Styles -/

/-- Whether a character can stand between the bracket and the `m` of a code for a style. -/
def isStyleParameter (c : Char) : Bool := c.isDigit || c = ';'

/-- The length of the code for a style at the front of a text; zero if there is none. -/
def styleLength : List Char → Nat
  | '\x1b' :: '[' :: rest =>
    match rest.dropWhile isStyleParameter with
    | 'm' :: _ => (rest.takeWhile isStyleParameter).length + 3
    | _ => 0
  | _ => 0

/-- A text without its first `skipped` characters and, behind them, without codes for styles. -/
def dropStyles (skipped : Nat) (cs : List Char) : List Char :=
  match cs with
  | [] => []
  | c :: rest =>
    match skipped with
    | n + 1 => dropStyles n rest
    | 0 =>
      match styleLength (c :: rest) with
      | 0 => c :: dropStyles 0 rest
      | n + 1 => dropStyles n rest

/-! ### Lines -/

/-- The pieces of a text between its line feeds; a text without line feeds is one piece. -/
def splitLines : List Char → List (List Char)
  | [] => [[]]
  | c :: cs =>
    if c = '\n' then [] :: splitLines cs
    else
      match splitLines cs with
      | [] => [[c]]
      | line :: rest => (c :: line) :: rest

/-- Lines behind others: the last line of the first text goes on in the first line of the second. -/
def continueLines : List (List Char) → List (List Char) → List (List Char)
  | [], rest => rest
  | [line], [] => [line]
  | [line], next :: rest => (line ++ next) :: rest
  | line :: more, rest => line :: continueLines more rest

/-! ### Laws -/

/-- A text without escapes has no codes for styles. -/
theorem dropStyles_eq_self {cs : List Char} (h : '\x1b' ∉ cs) : dropStyles 0 cs = cs := by
  induction cs with
  | nil => rfl
  | cons c rest ih =>
    have hc : c ≠ '\x1b' := fun e => h (e ▸ List.mem_cons_self)
    have none : styleLength (c :: rest) = 0 := by
      unfold styleLength
      split
      · simp_all
      · rfl
    rw [dropStyles, none]
    simp only [List.cons.injEq, true_and]
    exact ih fun m => h (List.mem_cons_of_mem c m)

/-- There is always a first line. -/
theorem splitLines_ne_nil (cs : List Char) : splitLines cs ≠ [] := by
  cases cs with
  | nil => simp [splitLines]
  | cons c cs =>
    rw [splitLines]
    split
    · simp
    · split <;> simp

/-- Nothing is lost between the lines but the line feeds. -/
theorem intercalate_splitLines (cs : List Char) :
    List.intercalate ['\n'] (splitLines cs) = cs := by
  induction cs with
  | nil => rfl
  | cons c cs ih =>
    rw [splitLines]
    split
    · next h =>
      cases e : splitLines cs with
      | nil => exact absurd e (splitLines_ne_nil cs)
      | cons line rest =>
        rw [e] at ih
        simp_all [List.intercalate, List.intersperse]
    · cases e : splitLines cs with
      | nil => exact absurd e (splitLines_ne_nil cs)
      | cons line rest =>
        rw [e] at ih
        cases rest <;> simp_all [List.intercalate, List.intersperse]

/-- The lines of two texts, one behind the other. -/
theorem splitLines_append (as bs : List Char) :
    splitLines (as ++ bs) = continueLines (splitLines as) (splitLines bs) := by
  induction as with
  | nil =>
    cases e : splitLines bs with
    | nil => exact absurd e (splitLines_ne_nil bs)
    | cons line rest => simp [splitLines, e, continueLines]
  | cons a as ih =>
    rw [List.cons_append, splitLines, splitLines, ih]
    cases e : splitLines as with
    | nil => exact absurd e (splitLines_ne_nil as)
    | cons line rest =>
      cases f : splitLines bs with
      | nil => exact absurd f (splitLines_ne_nil bs)
      | cons next others => cases rest <;> split <;> simp [continueLines]

/-- No line holds a line feed. -/
theorem not_mem_of_mem_splitLines {cs line : List Char} (h : line ∈ splitLines cs) :
    '\n' ∉ line := by
  induction cs generalizing line with
  | nil =>
    rw [splitLines, List.mem_singleton] at h
    exact h ▸ List.not_mem_nil
  | cons c cs ih =>
    rw [splitLines] at h
    split at h
    · rcases List.mem_cons.1 h with rfl | h
      · exact List.not_mem_nil
      · exact ih h
    · next hc =>
      cases e : splitLines cs with
      | nil => exact absurd e (splitLines_ne_nil cs)
      | cons first rest =>
        rw [e] at h
        rcases List.mem_cons.1 h with rfl | h
        · have first_free := ih (e ▸ List.mem_cons_self)
          exact fun m => (List.mem_cons.1 m).elim (fun eq => hc eq.symm) first_free
        · exact ih (e ▸ List.mem_cons_of_mem first h)

end CheckedMemo.Text
