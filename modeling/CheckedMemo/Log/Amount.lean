/-!
# Amounts of time

How long something took differs from run to run, so text shows no amount of time: the digits and
points behind `elapsed_ms=` are shown as a single `#`.  A text without `=` is shown as it is.
-/

namespace CheckedMemo

/-- What stands ahead of an amount of time, the last character first. -/
def reversedAmountMark : List Char := "elapsed_ms=".toList.reverse

/-- Whether a character can stand in an amount of time. -/
def isAmountChar (c : Char) : Bool := c.isDigit || c = '.'

/-- A text with `#` in place of every amount of time.  The characters ahead of the text are those in
`before`, the last of them first; `inside` says whether they end in an amount. -/
def hideAmounts (before : List Char) (inside : Bool) : List Char → List Char
  | [] => []
  | c :: rest =>
    if isAmountChar c && inside then hideAmounts (c :: before) true rest
    else if isAmountChar c && reversedAmountMark.isPrefixOf before then
      '#' :: hideAmounts (c :: before) true rest
    else c :: hideAmounts (c :: before) false rest

/-! ### Laws -/

/-- Where there is no `=`, no amount begins. -/
theorem isPrefixOf_reversedAmountMark {before : List Char} (h : '=' ∉ before) :
    reversedAmountMark.isPrefixOf before = false := by
  have mark : reversedAmountMark = '=' :: reversedAmountMark.tail := by decide
  cases before with
  | nil => rw [mark]; rfl
  | cons c rest =>
    have hc : '=' ≠ c := fun e => h (e ▸ List.mem_cons_self)
    rw [mark]
    simp [List.isPrefixOf, hc]

/-- A text without `=` is shown as it is. -/
theorem hideAmounts_eq_self {cs before : List Char} (h : '=' ∉ cs) (hb : '=' ∉ before) :
    hideAmounts before false cs = cs := by
  induction cs generalizing before with
  | nil => rfl
  | cons c rest ih =>
    have hc : '=' ≠ c := fun e => h (e ▸ List.mem_cons_self)
    have further : '=' ∉ c :: before := fun m => (List.mem_cons.1 m).elim hc hb
    simp [hideAmounts, isPrefixOf_reversedAmountMark hb,
      ih (fun m => h (List.mem_cons_of_mem c m)) further]

end CheckedMemo
