import CheckedMemo.Proofs.Configuring
import CheckedMemo.Proofs.Tuning
import CheckedMemo.Proofs.UpperCase
import Mathlib.Data.List.TakeWhile

/-!
# Settings of the environment

The settings can be read exactly if each of the three variables is valid: the level, without the
blanks at its ends and in upper case, is the name of a level (`Environment.HasLevel`), and so is
either flag `0` or `1` (`Environment.HasFlag`).  Otherwise the first variable that is not decides
the fault (`Environment.FirstInvalid`).  Neither blanks at the ends of a text nor the case of the
letters of a level matter (`Environment.Restyled`).

Settings that were read are in the form in which they are kept: they can be written back, and
logging, which takes the level with its blanks, accepts them (`settings_valid_and_usable`).
-/

namespace CheckedMemo

namespace Text

/-! ### Blanks at the ends of a text -/

theorem trim_append {outer : Char → Bool} {before after : List Char} (cs : List Char)
    (hbefore : ∀ c ∈ before, outer c = true) (hafter : ∀ c ∈ after, outer c = true) :
    trim outer (before ++ cs ++ after) = trim outer cs := by
  have hreverse : ∀ c ∈ after.reverse, outer c = true :=
    fun c hc => hafter c (List.mem_reverse.mp hc)
  rw [trim, trim, List.append_assoc, List.dropWhile_append_of_pos hbefore, List.dropWhile_append]
  split
  · -- nothing but blanks: what is left of the margin is nothing, too
    rename_i hempty
    rw [List.isEmpty_iff.mp hempty, List.dropWhile_eq_nil_iff.mpr hafter]
  · rw [List.reverse_append, List.dropWhile_append_of_pos hreverse]

theorem trim_map {outer : Char → Bool} {f : Char → Char} (h : ∀ c, outer (f c) = outer c)
    (cs : List Char) : trim outer (cs.map f) = (trim outer cs).map f := by
  have houter : outer ∘ f = outer := funext h
  rw [trim, trim, List.dropWhile_map, houter, ← List.map_reverse, List.dropWhile_map, houter,
    List.map_reverse]

/-- Whether `t` is the text `s` with blanks added at either end. -/
def Pads (s t : String) : Prop :=
  ∃ before after : String, before.toList.all isBlank = true ∧ after.toList.all isBlank = true ∧
    t = before ++ s ++ after

/-- What is left of a list, between what is cut off at either end. -/
theorem append_trim_append (outer : Char → Bool) (cs : List Char) :
    cs.takeWhile outer ++ trim outer cs ++
      ((cs.dropWhile outer).reverse.takeWhile outer).reverse = cs := by
  rw [trim, List.append_assoc, ← List.reverse_append, List.takeWhile_append_dropWhile,
    List.reverse_reverse, List.takeWhile_append_dropWhile]

theorem pads_strip (t : String) : Pads (strip t) t := by
  refine ⟨.ofList (t.toList.takeWhile isBlank),
    .ofList ((t.toList.dropWhile isBlank).reverse.takeWhile isBlank).reverse, ?_, ?_, ?_⟩
  · rw [String.toList_ofList]
    exact List.all_takeWhile
  · rw [String.toList_ofList, List.all_reverse]
    exact List.all_takeWhile
  · rw [strip, ← String.ofList_append, ← String.ofList_append, append_trim_append,
      String.ofList_toList]

theorem Pads.strip_eq {s t : String} (h : Pads s t) : strip t = strip s := by
  obtain ⟨before, after, hbefore, hafter, rfl⟩ := h
  rw [strip, String.toList_append, String.toList_append,
    trim_append s.toList (List.all_eq_true.mp hbefore) (List.all_eq_true.mp hafter), strip]

/-! ### Letters of either case -/

/-- Whether two texts are the same but for the case of letters of ASCII. -/
def SameButCase (s t : String) : Prop := s.toList.map Char.toUpper = t.toList.map Char.toUpper

instance (s t : String) : Decidable (SameButCase s t) :=
  inferInstanceAs (Decidable (s.toList.map Char.toUpper = t.toList.map Char.toUpper))

/-- A letter of either case is no blank. -/
theorem isBlank_toUpper (c : Char) : isBlank c.toUpper = isBlank c := by
  unfold isBlank
  rw [toNat_toUpper]
  split
  · have hupper : 65 ≤ c.toNat - 32 ∧ c.toNat - 32 ≤ 90 := by omega
    grind
  · rfl

theorem capitalChar_toUpper (c : Char) : capitalChar c.toUpper = capitalChar c := by
  by_cases h : c.toNat < 128
  · have hupper : c.toUpper.toNat < 128 := by
      rw [toNat_toUpper]
      split <;> omega
    rw [capitalChar_of_lt h, capitalChar_of_lt hupper]
    refine Char.toNat_inj.mp ?_
    rw [toNat_toUpper, toNat_toUpper]
    grind
  · rw [toUpper_of_le (Nat.le_of_not_lt h)]

/-- Capitals are no blanks, and blanks have none. -/
theorem isBlank_capitalChar (c : Char) : isBlank (capitalChar c) = isBlank c := by
  unfold capitalChar
  split
  · rename_i h
    rw [h]
    decide
  · split
    · rename_i h
      rw [h]
      decide
    · exact isBlank_toUpper c

theorem capitalize_strip (s : String) : capitalize (strip s) = strip (capitalize s) := by
  rw [capitalize, strip, strip, capitalize, String.toList_ofList, String.toList_ofList,
    trim_map isBlank_capitalChar]

theorem SameButCase.strip {s t : String} (h : SameButCase s t) :
    SameButCase (strip s) (strip t) := by
  unfold SameButCase Text.strip at *
  rw [String.toList_ofList, String.toList_ofList, ← trim_map isBlank_toUpper, h,
    trim_map isBlank_toUpper]

theorem SameButCase.capitalize_eq {s t : String} (h : SameButCase s t) :
    capitalize s = capitalize t := by
  have hupper (s : String) :
      capitalize s = String.ofList ((s.toList.map Char.toUpper).map capitalChar) := by
    rw [capitalize, List.map_map]
    congr 2
    exact funext fun c => (capitalChar_toUpper c).symm
  rw [hupper, hupper, h]

end Text

/-! ### Valid variables -/

/-- The text of a flag. -/
def flagText (b : Bool) : String := if b then "1" else "0"

theorem strip_flagText (b : Bool) : Text.strip (flagText b) = flagText b := by cases b <;> decide

theorem Level.strip_name (l : Level) : Text.strip l.name = l.name := by cases l <;> decide

theorem readFlag?_eq_some_iff {s : String} {b : Bool} : readFlag? s = some b ↔ s = flagText b := by
  unfold readFlag?
  cases b <;> grind [flagText]

/-- A computation that can fail in one way only does so exactly if it gives nothing. -/
theorem eq_error_iff {α : Type} {x : Except Fault α} {f f₀ : Fault}
    (only : ∀ g, x = .error g → g = f₀) : x = .error f ↔ (∀ a, x ≠ .ok a) ∧ f = f₀ := by
  constructor
  · rintro rfl
    exact ⟨fun a h => (nomatch h), only f rfl⟩
  · rintro ⟨hnone, rfl⟩
    cases x with
    | ok a => exact absurd rfl (hnone a)
    | error g => rw [only g rfl]

/-- The variables that settings are written to, with their texts. -/
def Settings.variables (t : Settings) : List (String × Option String) :=
  [(levelVariable, some t.level), (jsonVariable, some (flagText t.json)),
    (timingVariable, some (flagText t.timing))]

namespace Environment

/-- Whether a variable holds a flag, between blanks; one that is not set holds `0`. -/
def HasFlag (env : Environment) (name : String) (b : Bool) : Prop :=
  Text.Pads (flagText b) ((env.get? name).getD "0")

/-- Whether the level variable holds the name of a level, between blanks and in letters of any
case; if it is not set, it holds `INFO`. -/
def HasLevel (env : Environment) (upper : Text.UpperCase) (l : Level) : Prop :=
  ∃ core, Text.Pads core ((env.get? levelVariable).getD "INFO") ∧ upper.text core = l.name

theorem hasFlag_iff_read {env : Environment} {name : String} {b : Bool} :
    env.HasFlag name b ↔ env.read name "0" = flagText b := by
  constructor
  · intro h
    rw [read, h.strip_eq, strip_flagText]
  · intro h
    have hpads : Text.Pads (env.read name "0") ((env.get? name).getD "0") := Text.pads_strip _
    rwa [h] at hpads

/-- The blanks are no part of the name of a level, whatever they are in upper case. -/
theorem hasLevel_iff_read {env : Environment} {upper : Text.UpperCase} {l : Level} :
    env.HasLevel upper l ↔ Text.capitalize (env.read levelVariable "INFO") = l.name := by
  constructor
  · rintro ⟨core, hpads, hcore⟩
    rw [read, hpads.strip_eq, Text.capitalize_strip, upper.text_eq_name_iff.mp hcore, l.strip_name]
  · intro h
    exact ⟨env.read levelVariable "INFO", Text.pads_strip _, upper.text_eq_name_iff.mpr h⟩

instance (env : Environment) (name : String) (b : Bool) : Decidable (env.HasFlag name b) :=
  decidable_of_iff _ hasFlag_iff_read.symm

instance (env : Environment) (upper : Text.UpperCase) (l : Level) :
    Decidable (env.HasLevel upper l) :=
  decidable_of_iff _ hasLevel_iff_read.symm

/-- The first variable that is invalid, in the order level, JSON, timing, and the fault that tells
of it. -/
inductive FirstInvalid (env : Environment) (upper : Text.UpperCase) : String → Fault → Prop where
  | level (h : ∀ l, ¬env.HasLevel upper l) :
    FirstInvalid env upper levelVariable (.badLevelSetting levelVariable)
  | json {l : Level} (level : env.HasLevel upper l) (h : ∀ b, ¬env.HasFlag jsonVariable b) :
    FirstInvalid env upper jsonVariable (.badFlag jsonVariable)
  | timing {l : Level} {b : Bool} (level : env.HasLevel upper l)
    (json : env.HasFlag jsonVariable b) (h : ∀ b, ¬env.HasFlag timingVariable b) :
    FirstInvalid env upper timingVariable (.badFlag timingVariable)

/-- Whether the variables are the same but for blanks at the ends of their texts and the case of
the letters of the level. -/
structure Restyled (env env' : Environment) : Prop where
  level : Option.Rel (fun s t => ∃ u, Text.SameButCase s u ∧ Text.Pads u t)
    (env.get? levelVariable) (env'.get? levelVariable)
  json : Option.Rel Text.Pads (env.get? jsonVariable) (env'.get? jsonVariable)
  timing : Option.Rel Text.Pads (env.get? timingVariable) (env'.get? timingVariable)

variable {env env' : Environment} {upper : Text.UpperCase} {name : String} {b : Bool} {l : Level}
  {f : Fault} {t : Settings}

theorem flag_eq_ok_iff : env.flag name = .ok b ↔ env.HasFlag name b := by
  rw [hasFlag_iff_read, ← readFlag?_eq_some_iff, flag]
  cases readFlag? (env.read name "0") <;> simp

theorem flag_eq_error_iff :
    env.flag name = .error f ↔ (∀ b, ¬env.HasFlag name b) ∧ f = .badFlag name := by
  simp only [← flag_eq_ok_iff]
  refine eq_error_iff fun g hg => ?_
  unfold flag at hg
  split at hg <;> cases hg
  rfl

theorem level_eq_ok_iff (upper : Text.UpperCase) : env.level = .ok l ↔ env.HasLevel upper l := by
  rw [hasLevel_iff_read, ← Level.read?_eq_some_iff, level]
  cases Level.read? (env.read levelVariable "INFO") <;> simp

theorem level_eq_error_iff (upper : Text.UpperCase) : env.level = .error f ↔
    (∀ l, ¬env.HasLevel upper l) ∧ f = .badLevelSetting levelVariable := by
  simp only [← level_eq_ok_iff]
  refine eq_error_iff fun g hg => ?_
  unfold level at hg
  split at hg <;> cases hg
  rfl

/-! ### All settings -/

theorem settings_eq_ok_iff (upper : Text.UpperCase) : env.settings = .ok t ↔
    (∃ l, env.HasLevel upper l ∧ t.level = l.name) ∧ env.HasFlag jsonVariable t.json ∧
      env.HasFlag timingVariable t.timing := by
  constructor
  · intro h
    obtain ⟨l, hl, h⟩ := exists_of_bind_eq_ok h
    obtain ⟨json, hjson, h⟩ := exists_of_bind_eq_ok h
    obtain ⟨timing, htiming, h⟩ := exists_of_bind_eq_ok h
    cases h
    exact ⟨⟨l, (level_eq_ok_iff upper).mp hl, rfl⟩, flag_eq_ok_iff.mp hjson,
      flag_eq_ok_iff.mp htiming⟩
  · rintro ⟨⟨l, hl, hname⟩, hjson, htiming⟩
    have htiming : env.timing = .ok t.timing := flag_eq_ok_iff.mpr htiming
    rw [settings, (level_eq_ok_iff upper).mpr hl, ok_bind, flag_eq_ok_iff.mpr hjson, ok_bind,
      htiming, ok_bind, ← hname]
    rfl

theorem settings_eq_error_iff (upper : Text.UpperCase) :
    env.settings = .error f ↔ ∃ name, env.FirstInvalid upper name f := by
  constructor
  · intro h
    rcases cases_of_bind_eq_error h with h | ⟨l, hl, h⟩
    · obtain ⟨hlevel, rfl⟩ := (level_eq_error_iff upper).mp h
      exact ⟨_, .level hlevel⟩
    · have hlevel := (level_eq_ok_iff upper).mp hl
      rcases cases_of_bind_eq_error h with h | ⟨json, hjson, h⟩
      · obtain ⟨hjson, rfl⟩ := flag_eq_error_iff.mp h
        exact ⟨_, .json hlevel hjson⟩
      · rcases cases_of_bind_eq_error h with h | ⟨timing, -, h⟩
        · obtain ⟨htiming, rfl⟩ := flag_eq_error_iff.mp h
          exact ⟨_, .timing hlevel (flag_eq_ok_iff.mp hjson) htiming⟩
        · cases h
  · rintro ⟨name, h⟩
    cases h with
    | level h =>
      rw [settings, (level_eq_error_iff upper).mpr ⟨h, rfl⟩]
      rfl
    | json level h =>
      rw [settings, (level_eq_ok_iff upper).mpr level, ok_bind, flag_eq_error_iff.mpr ⟨h, rfl⟩]
      rfl
    | timing level json h =>
      have htiming : env.timing = _ := flag_eq_error_iff.mpr ⟨h, rfl⟩
      rw [settings, (level_eq_ok_iff upper).mpr level, ok_bind, flag_eq_ok_iff.mpr json, ok_bind,
        htiming]
      rfl

/-- The fault for an invalid variable tells of a bad value, and names the variable. -/
theorem FirstInvalid.names (h : env.FirstInvalid upper name f) :
    f.kind = .badValue ∧ ∃ choices, f.message = name ++ " must be one of: " ++ choices := by
  cases h with
  | level => exact ⟨rfl, Level.choices, rfl⟩
  | json | timing => exact ⟨rfl, "0, 1", rfl⟩

/-! ### Other texts for the same settings -/

theorem read_eq_of_pads (h : Option.Rel Text.Pads (env.get? name) (env'.get? name))
    (default : String) : env'.read name default = env.read name default := by
  unfold read
  generalize env.get? name = s, env'.get? name = t at h
  cases h with
  | none => rfl
  | some hpads => exact hpads.strip_eq

theorem flag_eq_of_read (h : env'.read name "0" = env.read name "0") :
    env'.flag name = env.flag name := by
  rw [flag, flag, h]

theorem level_eq_of_capitalize
    (h : Text.capitalize (env'.read levelVariable "INFO") =
      Text.capitalize (env.read levelVariable "INFO")) : env'.level = env.level := by
  rw [level, level, Level.read?, Level.read?, h]

theorem settings_congr (level : env'.level = env.level)
    (json : env'.flag jsonVariable = env.flag jsonVariable) (timing : env'.timing = env.timing) :
    env'.settings = env.settings := by
  rw [settings, settings, level, json, timing]

/-- Neither blanks at the ends of a text nor the case of the letters of a level matter. -/
theorem Restyled.settings_eq (h : env.Restyled env') : env'.settings = env.settings := by
  refine settings_congr ?_ (flag_eq_of_read (read_eq_of_pads h.json "0"))
    (flag_eq_of_read (read_eq_of_pads h.timing "0"))
  refine level_eq_of_capitalize ?_
  have hlevel := h.level
  unfold read
  generalize env.get? levelVariable = s, env'.get? levelVariable = t at hlevel
  cases hlevel with
  | none => rfl
  | some hsome =>
    obtain ⟨u, hcase, hpads⟩ := hsome
    rw [Option.getD_some, Option.getD_some, hpads.strip_eq, hcase.strip.capitalize_eq]

/-! ### Settings that are written back -/

theorem read_change (changes : List (String × Option String)) {text : String}
    (h : (env.change changes).get? name = some text) (default : String) :
    (env.change changes).read name default = Text.strip text := by
  rw [read, h, Option.getD_some]

/-- A level is read from its own name, and a flag from its own text. -/
theorem settings_change_variables (env : Environment) (h : t.level = l.name) :
    (env.change t.variables).settings = .ok t := by
  have hget (name : String) : (env.change t.variables).get? name =
      t.variables.foldl (fun v c => if name = c.1 then c.2 else v) (env.get? name) :=
    get?_change env t.variables name
  refine (settings_eq_ok_iff .latin).mpr ⟨⟨l, ?_, h⟩, ?_, ?_⟩
  · rw [hasLevel_iff_read, read_change _ (hget levelVariable), h, l.strip_name, l.capitalize_name]
  · rw [hasFlag_iff_read, read_change _ (hget jsonVariable), strip_flagText]
  · rw [hasFlag_iff_read, read_change _ (hget timingVariable), strip_flagText]

theorem timing_eq_of_get? (h : env'.get? timingVariable = env.get? timingVariable) :
    env'.timing = env.timing :=
  flag_eq_of_read (by rw [read, read, h])

end Environment

/-- Logging is configured by settings that were read, and what is in force then is their level. -/
theorem Session.configure_of_level (s : Session) {level : String} {l : Level} (h : level = l.name)
    (json : Bool) : s.perform (.settings (.configure level json)) =
      (.ok (.text level), { s with sink := s.sink.configure ⟨l, json⟩ }) := by
  have hname : Text.capitalize level = l.name := h ▸ l.capitalize_name
  show s.configure level json = _
  rw [configure, Logging.ofText_of_capitalize hname, h]

/-! ### Main statement -/

/-- **Settings are validated exactly, and what was read can be used.**  Whatever texts the three
variables hold, the settings can be read exactly if the level is the name of a level, between blanks
and in upper case, and either flag is `0` or `1` between blanks; a variable that is not set counts
as `INFO` or `0`.  Otherwise the first that is invalid, in the order level, JSON, timing, decides
the fault, which tells of a bad value and names the variable.  Blanks at the ends of texts and the
case of the letters of the level do not matter.  The settings are those that the variables hold.
They are read again where they are written to an environment, and logging can be configured by them
and has their level in force then.  The flag for block timers is the one of the settings, and
depends on its own variable alone. -/
theorem Environment.settings_valid_and_usable (upper : Text.UpperCase) (env : Environment) :
    ((∃ t, env.settings = .ok t) ↔ (∃ l, env.HasLevel upper l) ∧
      (∃ b, env.HasFlag jsonVariable b) ∧ ∃ b, env.HasFlag timingVariable b) ∧
    (∀ f, env.settings = .error f ↔ ∃ name, env.FirstInvalid upper name f) ∧
    (∀ name f, env.FirstInvalid upper name f →
      f.kind = .badValue ∧ ∃ choices, f.message = name ++ " must be one of: " ++ choices) ∧
    (∀ env', env.Restyled env' → env'.settings = env.settings) ∧
    (∀ t, env.settings = .ok t →
      (∃ l, env.HasLevel upper l ∧ t.level = l.name ∧
        ∀ s : Session, s.perform (.settings (.configure t.level t.json)) =
            (.ok (.text t.level), { s with sink := s.sink.configure ⟨l, t.json⟩ }) ∧
          (s.sink ≠ .collected → s.sink.configure ⟨l, t.json⟩ = .written ⟨l, t.json⟩)) ∧
      env.HasFlag jsonVariable t.json ∧ env.HasFlag timingVariable t.timing ∧
      env.timing = .ok t.timing ∧
      ∀ env' : Environment, (env'.change t.variables).settings = .ok t) ∧
    (∀ b, env.timing = .ok b ↔ env.HasFlag timingVariable b) ∧
    ∀ env' : Environment, env'.get? timingVariable = env.get? timingVariable →
      env'.timing = env.timing := by
  have hok {t : Settings} : env.settings = .ok t ↔ _ := settings_eq_ok_iff upper
  refine ⟨⟨?_, ?_⟩, fun f => settings_eq_error_iff upper, fun name f h => h.names,
    fun env' h => h.settings_eq, fun t ht => ?_, fun b => flag_eq_ok_iff,
    fun env' h => timing_eq_of_get? h⟩
  · rintro ⟨t, ht⟩
    obtain ⟨⟨l, hl, -⟩, hjson, htiming⟩ := hok.mp ht
    exact ⟨⟨l, hl⟩, ⟨_, hjson⟩, _, htiming⟩
  · rintro ⟨⟨l, hl⟩, ⟨json, hjson⟩, timing, htiming⟩
    exact ⟨⟨l.name, json, timing⟩, hok.mpr ⟨⟨l, hl, rfl⟩, hjson, htiming⟩⟩
  · obtain ⟨⟨l, hl, hname⟩, hjson, htiming⟩ := hok.mp ht
    refine ⟨⟨l, hl, hname, fun s => ⟨s.configure_of_level hname t.json, fun hsink => ?_⟩⟩, hjson,
      htiming, flag_eq_ok_iff.mpr htiming, fun env' => settings_change_variables env' hname⟩
    cases hs : s.sink with
    | collected => exact absurd hs hsink
    | unseen | written => rfl

/-- An environment with a level that has a letter outside of ASCII, and no flag for block timers. -/
def dotlessEnvironment : Environment :=
  .change ∅ [(levelVariable, some "\u0131nfo"), (jsonVariable, some "1")]

/-- The same with blanks, and with letters of either case. -/
def paddedEnvironment : Environment :=
  .change ∅ [(levelVariable, some "\u2003\u0131NfO\t"), (jsonVariable, some "1\x1c ")]

/-- An environment in which neither flag is valid. -/
def flaglessEnvironment : Environment := .change ∅
  [(timingVariable, some "off"), (jsonVariable, some "2"), (levelVariable, some "Warning")]

theorem Environment.settings_valid_and_usable_dotless :
    dotlessEnvironment.settings = .ok ⟨"INFO", true, false⟩ ∧
    dotlessEnvironment.Restyled paddedEnvironment ∧
    paddedEnvironment.settings = .ok ⟨"INFO", true, false⟩ ∧
    (flaglessEnvironment.change (Settings.mk "INFO" true false).variables).settings =
      .ok ⟨"INFO", true, false⟩ ∧
    (∃ l : Level, l.name = "INFO" ∧
      Session.perform {} (.settings (.configure "INFO" true)) =
        (.ok (.text "INFO"), { sink := .written ⟨l, true⟩ })) ∧
    paddedEnvironment.timing = dotlessEnvironment.timing ∧
    flaglessEnvironment.FirstInvalid .latin jsonVariable (.badFlag jsonVariable) ∧
    flaglessEnvironment.settings = .error (.badFlag jsonVariable) ∧
    (Fault.badFlag jsonVariable).kind = .badValue := by
  have hsettings : dotlessEnvironment.settings = .ok ⟨"INFO", true, false⟩ := by rfl
  have hrestyled : dotlessEnvironment.Restyled paddedEnvironment := {
    level := .some ⟨"\u0131NfO", by decide, "\u2003", "\t", by decide, by decide, by decide⟩
    json := .some ⟨"", "\x1c ", by decide, by decide, by decide⟩
    timing := .none }
  have hinvalid : flaglessEnvironment.FirstInvalid .latin jsonVariable (.badFlag jsonVariable) := by
    refine .json (l := .warning) (by decide) fun b => ?_
    cases b <;> decide
  obtain ⟨-, -, -, hstyles, husable, -, htiming⟩ :=
    settings_valid_and_usable .latin dotlessEnvironment
  obtain ⟨-, herror, hnames, -⟩ := settings_valid_and_usable .latin flaglessEnvironment
  obtain ⟨⟨l, -, hname, hconfigure⟩, -, -, -, hback⟩ := husable _ hsettings
  obtain ⟨hperform, hsink⟩ := hconfigure {}
  rw [hsink (by decide)] at hperform
  exact ⟨hsettings, hrestyled, (hstyles _ hrestyled).trans hsettings, hback flaglessEnvironment,
    ⟨l, hname.symm, hperform⟩, htiming _ rfl, hinvalid, (herror _).mpr ⟨_, hinvalid⟩,
    (hnames _ _ hinvalid).1⟩

end CheckedMemo
