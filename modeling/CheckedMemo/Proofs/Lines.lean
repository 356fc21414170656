import CheckedMemo.Proofs.Journal

/-!
# Lines of events

What is written for an event under a configuration: nothing below the level, a record of the event
if records are chosen, and text otherwise (`Event.WrittenUnder`, `Event.writtenUnder`).  A text is
cut at its line feeds, but the fields of an event are quoted where they hold one, so an event has a
single line unless its own name, its logger or a field with a place of its own breaks the line
(`Event.Unbroken`).  No event that the library logs does (`Event.OfLibrary.unbroken`).
-/

namespace CheckedMemo

/-! ### Texts without line feeds -/

namespace Text

theorem splitLines_of_not_mem {cs : List Char} (h : '\n' ∉ cs) : splitLines cs = [cs] := by
  induction cs with
  | nil => rfl
  | cons c cs ih =>
    have hc : c ≠ '\n' := fun hc => h (hc ▸ List.mem_cons_self)
    rw [splitLines, if_neg hc, ih fun hcs => h (List.mem_cons_of_mem c hcs)]

theorem mem_of_mem_dropStyles {c : Char} {cs : List Char} {skipped : Nat}
    (h : c ∈ dropStyles skipped cs) : c ∈ cs := by
  induction cs generalizing skipped with
  | nil => cases skipped <;> cases h
  | cons d rest ih =>
    unfold dropStyles at h
    split at h
    · exact List.mem_cons_of_mem d (ih h)
    · split at h
      · exact (List.mem_cons.mp h).elim (fun hc => hc ▸ List.mem_cons_self)
          fun hc => List.mem_cons_of_mem d (ih hc)
      · exact List.mem_cons_of_mem d (ih h)

theorem continueLines_ne_nil {lines rest : List (List Char)} (h : rest ≠ []) :
    continueLines lines rest ≠ [] := by
  fun_cases continueLines lines rest <;> simp_all

/-! ### Quoted texts -/

theorem newline_not_mem_hexDigits (width n : Nat) : '\n' ∉ hexDigits width n := by
  have hdigit : ∀ d < 16, Nat.digitChar d ≠ '\n' := by decide
  induction width generalizing n with
  | zero => exact List.not_mem_nil
  | succ width ih =>
    rw [hexDigits, List.mem_append, List.mem_singleton]
    rintro (h | h)
    · exact ih _ h
    · exact hdigit (n % 16) (Nat.mod_lt _ (by decide)) h.symm

theorem newline_not_mem_codeEscape (n : Nat) : '\n' ∉ codeEscape n := by
  unfold codeEscape
  split
  · simp [newline_not_mem_hexDigits]
  · split <;> simp [newline_not_mem_hexDigits]

theorem newline_not_mem_escapeChar {quote : Char} (hquote : quote ≠ '\n') (c : Char) :
    '\n' ∉ escapeChar quote c := by
  unfold escapeChar
  split_ifs with hself htab hfeed hreturn hprint
  · rcases hself with rfl | rfl
    · simp [Ne.symm hquote]
    · decide
  · decide
  · decide
  · decide
  · simpa using Ne.symm hfeed
  · exact newline_not_mem_codeEscape _

theorem quoteMark_ne_newline (cs : List Char) : quoteMark cs ≠ '\n' := by
  unfold quoteMark
  split <;> decide

theorem newline_not_mem_flatMap_escapeChar {quote : Char} (hquote : quote ≠ '\n')
    (cs : List Char) : '\n' ∉ cs.flatMap (escapeChar quote) := by
  intro h
  obtain ⟨c, -, hc⟩ := List.mem_flatMap.mp h
  exact newline_not_mem_escapeChar hquote c hc

theorem newline_not_mem_quoted (s : String) : '\n' ∉ (quoted s).toList := by
  have hquote := quoteMark_ne_newline s.toList
  simp [quoted, Ne.symm hquote, newline_not_mem_flatMap_escapeChar hquote]

end Text

theorem mem_hideAmounts {c : Char} {cs before : List Char} {inside : Bool}
    (h : c ∈ hideAmounts before inside cs) : c ∈ cs ∨ c = '#' := by
  induction cs generalizing before inside with
  | nil => cases h
  | cons d rest ih =>
    have further {before : List Char} {inside : Bool} (h : c ∈ hideAmounts before inside rest) :
        c ∈ d :: rest ∨ c = '#' := (ih h).imp_left (List.mem_cons_of_mem d)
    unfold hideAmounts at h
    split at h
    · exact further h
    · split at h
      · exact (List.mem_cons.mp h).elim .inr further
      · exact (List.mem_cons.mp h).elim (fun hc => .inl (hc ▸ List.mem_cons_self)) further

/-- A text is shown without line feeds: one that holds any is quoted. -/
theorem newline_not_mem_shown (s : String) : '\n' ∉ (shown s).toList := by
  unfold shown
  split
  · rename_i hplain
    intro h
    have hnone : (!s.toList.any ambiguous.contains) = true := hplain
    have hany : s.toList.any ambiguous.contains = true :=
      List.any_eq_true.mpr ⟨'\n', h, by decide⟩
    rw [hany] at hnone
    cases hnone
  · exact Text.newline_not_mem_quoted s

/-! ### Pieces on one line -/

namespace Piece

/-- A piece that stands on one line. -/
def IsFlat : Piece → Prop
  | .text s => '\n' ∉ s.toList
  | .thread _ => True

theorem IsFlat.lines_eq {p : Piece} (h : p.IsFlat) : ∃ line, p.lines = [line] := by
  cases p with
  | text s =>
    refine ⟨_, Text.splitLines_of_not_mem ?_⟩
    intro hmem
    rcases mem_hideAmounts hmem with hmem | hmem
    · exact h (Text.mem_of_mem_dropStyles hmem)
    · exact absurd hmem (by decide)
  | thread name => exact ⟨_, rfl⟩

theorem joined_ne_nil (ps : List Piece) : joined ps ≠ [] := by
  have hlines : ps.foldr (fun p rest => Text.continueLines p.lines rest) [[]] ≠ [] := by
    induction ps with
    | nil => exact List.cons_ne_nil _ _
    | cons p ps ih => exact Text.continueLines_ne_nil ih
  exact fun h => hlines (List.map_eq_nil_iff.mp h)

/-- Pieces that stand on one line each make one line. -/
theorem joined_of_isFlat {ps : List Piece} (h : ∀ p ∈ ps, p.IsFlat) :
    ∃ line, joined ps = [line] := by
  have hlines : ∃ line,
      ps.foldr (fun p rest => Text.continueLines p.lines rest) [[]] = [line] := by
    induction ps with
    | nil => exact ⟨_, rfl⟩
    | cons p ps ih =>
      obtain ⟨line, hline⟩ := (h p List.mem_cons_self).lines_eq
      obtain ⟨rest, hrest⟩ := ih fun q hq => h q (List.mem_cons_of_mem p hq)
      rw [List.foldr_cons, hrest, hline]
      exact ⟨_, rfl⟩
  obtain ⟨line, hline⟩ := hlines
  exact ⟨_, by rw [joined, hline]; rfl⟩

end Piece

open Piece (IsFlat)

/-- The name of a thread does not break the line that a label stands on. -/
theorem Label.isFlat_piecesBehind {front : String} (h : '\n' ∉ front.toList) (l : Label) :
    ∀ p ∈ l.piecesBehind front, p.IsFlat := by
  unfold Label.piecesBehind
  split
  · simp [IsFlat, h, newline_not_mem_shown]
  · have hquote := Text.quoteMark_ne_newline l.base.toList
    simp [IsFlat, h, Ne.symm hquote, Text.newline_not_mem_flatMap_escapeChar hquote]

theorem newline_not_mem_repr (n : Int) : '\n' ∉ n.repr.toList := by
  have hdigits (n : Nat) : '\n' ∉ Nat.toDigits 10 n :=
    fun h => absurd (Nat.isDigit_of_mem_toDigits (by decide) (by decide) h) (by decide)
  rw [Int.repr_eq_if]
  split <;> simp [hdigits]

theorem Scalar.isFlat_piecesBehind {front : String} (h : '\n' ∉ front.toList) (v : Scalar) :
    ∀ p ∈ v.piecesBehind front, p.IsFlat := by
  cases v with
  | text s => simp [piecesBehind, IsFlat, h, newline_not_mem_shown]
  | label l => exact l.isFlat_piecesBehind h
  | int n => simp [piecesBehind, IsFlat, h, bare, newline_not_mem_repr]
  | null | duration => simp [piecesBehind, IsFlat, h, bare]
  | bool b => cases b <;> simp [piecesBehind, IsFlat, h, bare]

/-- The sink while a configuration is in force, or none is yet. -/
def Sink.under (inForce : Option Logging) : Sink := inForce.elim .unseen .written

namespace Event

/-! ### Events on one line -/

/-- The names of fields that can put more than one line into the text of an event, or keep it from
being written. -/
def disruptive : List String := ["logger_name", "stack", "exception", "_record"]

/-- An event with nothing in it that breaks its line: no line feed where texts stand as they are, no
field with a place of its own, and no exception in progress. -/
structure Unbroken (e : Event) : Prop where
  name : '\n' ∉ e.name.toList
  logger : '\n' ∉ e.logger.toList
  fields : ∀ field ∈ e.fields.map Prod.fst, '\n' ∉ field.toList ∧ field ∉ disruptive
  forException : e.forException = false

theorem lookup_eq_none_of_not_mem {e : Event} {name : String}
    (h : name ∉ e.fields.map Prod.fst) : e.fields.lookup name = none := by
  rw [List.lookup_eq_none_iff]
  intro f hf
  exact bne_iff_ne.mpr fun hname => h (hname ▸ List.mem_map_of_mem hf)

theorem newline_not_mem_padded {s : String} (h : '\n' ∉ s.toList) (width : Nat) :
    '\n' ∉ (padded width s).toList := by
  simp [padded, h]

namespace Unbroken

variable {e : Event}

/-- Only the name of an event, its logger and the names of its fields matter. -/
theorem of_names (name logger : String) (names : List String) (hname : e.name = name)
    (hlogger : e.logger = logger) (hnames : e.fields.map Prod.fst = names)
    (forException : e.forException = false)
    (h : '\n' ∉ name.toList ∧ '\n' ∉ logger.toList ∧
      ∀ field ∈ names, '\n' ∉ field.toList ∧ field ∉ disruptive) : e.Unbroken := by
  subst hname hlogger hnames
  exact ⟨h.1, h.2.1, h.2.2, forException⟩

theorem lookup_eq_none (h : e.Unbroken) {name : String} (hname : name ∈ disruptive) :
    e.fields.lookup name = none :=
  lookup_eq_none_of_not_mem fun hfield => (h.fields name hfield).2 hname

theorem value?_eq_none (h : e.Unbroken) {name : String} (hname : name ∈ disruptive) :
    e.value? name = none := by
  rw [value?, h.lookup_eq_none hname]
  rfl

theorem checkRecord (h : e.Unbroken) : e.checkRecord = .ok () := by
  rw [Event.checkRecord, h.value?_eq_none (by decide)]

theorem below (h : e.Unbroken) : e.below = .ok "" := by
  have hstack : e.block? "stack" = .ok none := by rw [block?, h.value?_eq_none (by decide)]
  have hexception : e.block? "exception" = .ok none := by
    rw [block?, h.value?_eq_none (by decide)]
  rw [Event.below, blocks, hstack, hexception, h.forException]
  rfl

theorem isFlat_head (h : e.Unbroken) : ∀ p ∈ e.head, p.IsFlat := by
  have hword : '\n' ∉ e.level.word.toList := by
    cases e.level <;> decide
  intro p hp
  rw [head, h.lookup_eq_none (by decide)] at hp
  rcases List.mem_cons.mp hp with rfl | hp
  · simp [IsFlat, newline_not_mem_padded, hword, h.name, h.logger]
  · obtain ⟨f, hf, hp⟩ := List.mem_flatMap.mp hp
    have hfield : f ∈ e.fields := (List.mem_filter.mp (List.mem_mergeSort.mp hf)).1
    refine f.2.isFlat_piecesBehind ?_ p hp
    simp [(h.fields f.1 (List.mem_map_of_mem hfield)).1]

theorem console (h : e.Unbroken) : ∃ text, e.console = .ok [text] := by
  have hflat : ∀ p ∈ e.head ++ [.text ""], p.IsFlat := by
    intro p hp
    rcases List.mem_append.mp hp with hp | hp
    · exact h.isFlat_head p hp
    · obtain rfl := List.mem_singleton.mp hp
      exact List.not_mem_nil
  obtain ⟨text, htext⟩ := Piece.joined_of_isFlat hflat
  refine ⟨text, ?_⟩
  rw [Event.console, h.below]
  exact congrArg Except.ok htext

end Unbroken

/-- The events that the library itself logs. -/
inductive OfLibrary : Event → Prop where
  | routine {e : Event} (h : e.Routine) : OfLibrary e
  | miss (label : Label) (key : Spelled) : OfLibrary (.cacheMiss label key)

/-- No event of the library breaks its line, whatever labels, keys and queries are in it. -/
theorem OfLibrary.unbroken {e : Event} (h : e.OfLibrary) : e.Unbroken := by
  cases h with
  | miss label key =>
    exact .of_names "cache_miss" "pinned_memo.cache" ["cache", "key"] rfl rfl rfl rfl (by decide)
  | routine h =>
    cases h with
    | timer label =>
      exact .of_names "block_timer" "pinned_memo.timing" ["label", "elapsed_ms"] rfl rfl rfl rfl
        (by decide)
    | installation query =>
      exact .of_names "query_override_installed" "pinned_memo.overrides" ["query"] rfl rfl rfl rfl
        (by decide)
    | refusal f hf =>
      cases f with
      | conflict label mode active key =>
        cases hf
        exact .of_names "usage_fault" "pinned_memo.cell" ["cell", "operation", "key"] rfl rfl rfl
          rfl (by decide)
      | reentrant label key | busy label key =>
        cases hf
        exact .of_names "usage_fault" "pinned_memo.cache" ["cache", "operation", "key"] rfl rfl rfl
          rfl (by decide)
      | notPopulated label hint key =>
        cases hf
        exact .of_names "usage_fault" "pinned_memo.scoped" ["cache", "operation", "key"] rfl rfl
          rfl rfl (by decide)
      | _ => cases hf

/-! ### What is written for an event -/

/-- The lines that are written for an event by the configuration in force, if there is one. -/
structure WrittenUnder (e : Event) (inForce : Option Logging) (lines : List Line) : Prop where
  /-- Something is written exactly if a configuration is in force and the event has its level. -/
  written_iff : lines ≠ [] ↔ ∃ l, inForce = some l ∧ l.level.rank ≤ e.level.rank
  /-- A configuration with records has the record of the event written, with a line below it if the
  event is logged for the exception in progress. -/
  record : ∀ l, inForce = some l → l.json = true → lines ≠ [] → lines = e.recordLines
  /-- Any other configuration has nothing but text written. -/
  console : ∀ l, inForce = some l → l.json = false → ∀ line ∈ lines, ∃ text, line = .console text
  /-- An event with nothing that breaks its line has one line at most. -/
  single : e.Unbroken → lines.length ≤ 1

namespace WrittenUnder

variable {e : Event} {l : Logging}

theorem nothing {inForce : Option Logging}
    (h : ∀ l, inForce = some l → e.level.rank < l.level.rank) : e.WrittenUnder inForce [] where
  written_iff := by
    refine ⟨fun hlines => absurd rfl hlines, ?_⟩
    rintro ⟨l, hl, hreached⟩
    exact absurd (h l hl) (Nat.not_lt.mpr hreached)
  record _ _ _ hlines := absurd rfl hlines
  console _ _ _ _ hline := absurd hline List.not_mem_nil
  single _ := Nat.zero_le 1

theorem records (hreached : l.level.rank ≤ e.level.rank) (hjson : l.json = true) :
    e.WrittenUnder (some l) e.recordLines where
  written_iff := by simp [recordLines, hreached]
  record _ _ _ _ := rfl
  console l' hl htext := by
    cases hl
    rw [hjson] at htext
    cases htext
  single hunbroken := by
    rw [recordLines, hunbroken.forException]
    exact Nat.le_refl 1

theorem texts {texts : List String} (hreached : l.level.rank ≤ e.level.rank)
    (hjson : l.json = false) (htexts : e.console = .ok texts) :
    e.WrittenUnder (some l) (texts.map .console) where
  written_iff := by
    obtain ⟨below, -, hjoined⟩ := exists_of_bind_eq_ok htexts
    have hne := Piece.joined_ne_nil (e.head ++ [.text below])
    -- the pieces are not to be looked into
    generalize Piece.joined (e.head ++ [.text below]) = joined at hjoined hne
    cases hjoined
    simp [hne, hreached]
  record l' hl hrecord := by
    cases hl
    rw [hjson] at hrecord
    cases hrecord
  console _ _ _ line hline := by
    obtain ⟨text, -, rfl⟩ := List.mem_map.mp hline
    exact ⟨text, rfl⟩
  single hunbroken := by
    obtain ⟨text, htext⟩ := hunbroken.console
    rw [htexts] at htext
    cases htext
    exact Nat.le_refl 1

end WrittenUnder

theorem writtenUnder_of_linesUnder {e : Event} {l : Logging} {lines : List Line}
    (h : e.linesUnder l = .ok lines) : e.WrittenUnder (some l) lines := by
  unfold linesUnder at h
  split at h
  · rename_i hlevel
    cases h
    refine .nothing ?_
    rintro _ ⟨⟩
    exact hlevel
  · rename_i hlevel
    have hreached : l.level.rank ≤ e.level.rank := Nat.not_lt.mp hlevel
    obtain ⟨_, -, h⟩ := exists_of_bind_eq_ok h
    split at h
    · rename_i hjson
      cases h
      exact .records hreached hjson
    · rename_i hjson
      obtain ⟨texts, htexts, h⟩ := exists_of_bind_eq_ok h
      cases h
      exact .texts hreached (Bool.eq_false_iff.mpr hjson) htexts

/-- The lines of an event are those that the configuration in force has written. -/
theorem writtenUnder_of_lines {e : Event} {inForce : Option Logging} {lines : List Line}
    (h : e.lines (Sink.under inForce) = .ok lines) : e.WrittenUnder inForce lines := by
  cases inForce with
  | some l => exact writtenUnder_of_linesUnder h
  | none =>
    -- the text that nobody sees is rendered all the same
    rw [Sink.under, Option.elim_none, Event.lines] at h
    cases htexts : e.withStack.console with
    | error f =>
      rw [htexts] at h
      cases h
    | ok texts =>
      rw [htexts] at h
      cases h
      exact .nothing nofun

/-! ### Events that can always be rendered -/

theorem exists_console {e : Event} {stack exception : Option String}
    (hstack : e.block? "stack" = .ok stack) (hexception : e.block? "exception" = .ok exception) :
    ∃ texts, e.console = .ok texts := by
  rw [console, below, blocks, hstack, hexception]
  cases e.forException <;> exact ⟨_, rfl⟩

theorem Unbroken.exists_console_withStack {e : Event} (h : e.Unbroken) :
    ∃ texts, e.withStack.console = .ok texts := by
  have hstack : ∃ stack, e.withStack.block? "stack" = .ok stack := by
    unfold withStack
    split
    · exact ⟨some "", rfl⟩
    · exact ⟨none, by rw [block?, h.value?_eq_none (by decide)]⟩
  have hnone : "exception" ∉ e.fields.map Prod.fst :=
    fun hfield => (h.fields _ hfield).2 (by decide)
  have hnone' : "exception" ∉ e.withStack.fields.map Prod.fst := by
    unfold withStack
    split
    · -- the fields but the stack are fields of the event
      rw [List.map_cons, List.mem_cons, not_or]
      refine ⟨by decide, fun hfield => hnone ?_⟩
      exact (List.filter_sublist.map Prod.fst).subset hfield
    · exact hnone
  obtain ⟨stack, hstack⟩ := hstack
  have hexception : e.withStack.block? "exception" = .ok none := by
    rw [block?, value?, lookup_eq_none_of_not_mem hnone']
    rfl
  exact exists_console hstack hexception

/-- An event with nothing that breaks its line can be rendered under any configuration. -/
theorem Unbroken.exists_lines {e : Event} (h : e.Unbroken) (inForce : Option Logging) :
    ∃ lines, e.lines (Sink.under inForce) = .ok lines := by
  cases inForce with
  | none =>
    obtain ⟨texts, htexts⟩ := h.exists_console_withStack
    exact ⟨[], by rw [Sink.under, Option.elim_none, Event.lines, htexts]; rfl⟩
  | some l =>
    obtain ⟨text, htext⟩ := h.console
    show ∃ lines, e.linesUnder l = .ok lines
    unfold linesUnder
    split
    · exact ⟨[], rfl⟩
    · rw [h.checkRecord, ok_bind]
      split
      · exact ⟨_, rfl⟩
      · rw [htext]
        exact ⟨_, rfl⟩

end Event

end CheckedMemo
