import CheckedMemo.Machine.Step
import CheckedMemo.Proofs.Lookup

/-!
# Failures without a key

Most of what a session does has nothing to do with requests to cells and caches: it handles data,
tables of functions, settings and events.  It may fail, but then reports no key (`Keyless`), so that
nothing is logged either (`Fault.event?_of_key?`).
-/

namespace CheckedMemo

/-- Only faults that report a key are logged. -/
theorem Fault.event?_of_key? {f : Fault} (h : f.key? = none) : f.event? = none := by
  cases f with
  | conflict | reentrant | busy | notPopulated => cases h
  | _ => rfl

/-- Whether a computation that fails reports no key. -/
def Keyless {α : Type} (x : Except Fault α) : Prop := ∀ f, x = .error f → f.key? = none

namespace Keyless

variable {α β : Type} {x : Except Fault α}

theorem ok (a : α) : Keyless (.ok a) := fun _ h => nomatch h

theorem error {f : Fault} (h : f.key? = none) : Keyless (α := α) (.error f) := by
  rintro _ ⟨⟩
  exact h

theorem bind {f : α → Except Fault β} (hx : Keyless x) (hf : ∀ a, Keyless (f a)) :
    Keyless (x >>= f) := by
  cases x with
  | error g => exact error (hx g rfl)
  | ok a => exact hf a

theorem map (hx : Keyless x) (f : α → β) : Keyless (x.map f) := by
  cases x with
  | error g => exact error (hx g rfl)
  | ok a => exact ok (f a)

theorem elim {o : Option α} {f : Fault} (h : f.key? = none) : Keyless (o.elim (.error f) .ok) := by
  cases o with
  | none => exact error h
  | some a => exact ok a

end Keyless

namespace Request

theorem keyless_index (r : Request) : Keyless r.index := by
  unfold index
  split
  · exact .ok _
  · exact .error rfl

theorem keyless_spelled (r : Request) : Keyless r.spelled := by
  unfold spelled
  split
  · exact .ok _
  · exact .error rfl

/-- That nothing is stored for a key is reported without the key. -/
theorem key?_absent (r : Request) (label : Label) : (r.fault (.absent label)).key? = none := by
  unfold fault
  split
  · rfl
  · rename_i f hf
    exact r.keyless_spelled f hf

end Request

namespace Memory

theorem keyless_placeOf (what : String) (size : Nat) (index : Value) :
    Keyless (placeOf what size index) := by
  unfold placeOf
  split
  · exact .error rfl
  · split
    · exact .elim rfl
    · exact .error rfl

theorem keyless_pick (what : String) (items : Array Value) (index : Value) :
    Keyless (pick what items index) :=
  (keyless_placeOf what items.size index).bind fun _ => .elim rfl

theorem keyless_dictPut (d : Dict) (key value : Value) : Keyless (d.put key value) := by
  unfold Dict.put
  split
  · exact .error rfl
  · exact .ok _

theorem keyless_dictOfList (entries : List (Value × Value)) :
    Keyless (Dict.ofList entries) := by
  have hfold (d : Dict) : Keyless (entries.foldlM (fun d e => d.put e.1 e.2) d) := by
    induction entries generalizing d with
    | nil => exact .ok d
    | cons e rest ih => exact (keyless_dictPut d e.1 e.2).bind fun d => ih d
  exact hfold ∅

theorem keyless_valueAt (m : Memory) (d : Dict) (key : Value) :
    Keyless (m.valueAt d key) := by
  have hitem : Keyless (d.item? key) := by
    unfold Dict.item?
    split
    · exact .error rfl
    · exact .ok _
  refine hitem.bind fun _ => .elim ?_
  unfold noKey
  split <;> rfl

theorem keyless_item (m : Memory) (container index : Value) :
    Keyless (m.item container index) := by
  unfold item
  split
  · exact keyless_pick _ _ _
  · split
    · exact keyless_pick _ _ _
    · exact m.keyless_valueAt _ _
    · exact .error rfl
  · split
    · exact keyless_pick _ _ _
    · exact m.keyless_valueAt _ _
    · exact .error rfl
  · exact .error rfl

theorem keyless_replacement (m : Memory) (address : Nat) (index value : Value) :
    Keyless (m.replacement address index value) := by
  unfold replacement
  split
  · exact (keyless_placeOf _ _ _).bind fun _ => .ok _
  · exact (keyless_dictPut _ _ _).bind fun _ => .ok _
  · exact .error rfl

theorem keyless_put (m : Memory) (container index value : Value) :
    Keyless (m.put container index value).1 := by
  unfold put
  split
  · split
    · exact .ok _
    · rename_i e he
      exact .error (m.keyless_replacement _ index value e he)
  · split
    · exact .ok _
    · rename_i e he
      exact .error (m.keyless_replacement _ index value e he)
  · exact .error rfl

theorem keyless_run (m : Memory) (c : Command) : Keyless (m.run c).1 := by
  cases c with
  | newTuple | newList | newObject | newNotANumber | same | equal | assign => exact .ok _
  | newDict entries =>
    rw [run]
    split
    · exact .ok _
    · rename_i f hf
      exact .error (keyless_dictOfList entries f hf)
  | append list item =>
    unfold run append
    dsimp only
    split
    · exact .ok _
    · exact .error rfl
  | put container index value => exact m.keyless_put container index value
  | item container index => exact m.keyless_item container index
  | lookup name =>
    rw [run]
    split
    · exact .ok _
    · exact .error rfl

end Memory

namespace Event

theorem keyless_console (e : Event) : Keyless e.console := by
  have hblock (name : String) : Keyless (e.block? name) := by
    unfold block?
    split
    · exact .ok _
    · exact .ok _
    · exact .ok _
    · exact .error rfl
  have hblocks : Keyless e.blocks :=
    (hblock "stack").bind fun _ => (hblock "exception").bind fun _ => .ok _
  have hbelow : Keyless e.below := by
    refine hblocks.bind fun _ => ?_
    split <;> exact .ok _
  exact hbelow.bind fun _ => .ok _

theorem keyless_lines (e : Event) (sink : Sink) : Keyless (e.lines sink) := by
  cases sink with
  | collected => exact .ok _
  | unseen => exact e.withStack.keyless_console.map _
  | written logging =>
    have hcheck : Keyless e.checkRecord := by
      unfold checkRecord
      split
      · exact .ok _
      · exact .error rfl
    rw [lines, linesUnder]
    split
    · exact .ok _
    · refine hcheck.bind fun _ => ?_
      split
      · exact .ok _
      · exact e.keyless_console.bind fun _ => .ok _

end Event

theorem Logging.keyless_ofText (level : String) (json : Bool) :
    Keyless (Logging.ofText level json) := by
  unfold ofText
  split
  · exact .ok _
  · exact .error rfl

namespace Environment

variable (env : Environment)

theorem keyless_flag (name : String) : Keyless (env.flag name) := by
  unfold flag
  split
  · exact .ok _
  · exact .error rfl

theorem keyless_level : Keyless env.level := by
  unfold level
  split
  · exact .ok _
  · exact .error rfl

theorem keyless_timing : Keyless env.timing := env.keyless_flag timingVariable

theorem keyless_settings : Keyless env.settings :=
  env.keyless_level.bind fun _ => (env.keyless_flag jsonVariable).bind fun _ =>
    env.keyless_timing.bind fun _ => .ok _

end Environment

namespace Session

variable (s : Session)

theorem keyless_tableNamed (name : String) : Keyless (s.tableNamed name) := by
  unfold tableNamed
  split
  · split
    · exact .ok _
    · exact .error rfl
  · exact .error rfl

theorem keyless_codeAt (source : Source) : Keyless (s.codeAt source) := by
  cases source with
  | provider providers query => exact (s.keyless_tableNamed providers).bind fun _ => .elim rfl
  | entry table query =>
    unfold codeAt
    dsimp only
    split
    · exact .elim rfl
    · exact .error rfl
  | function name => exact .elim rfl

theorem keyless_configure (level : String) (json : Bool) :
    Keyless (s.configure level json).1 := by
  unfold configure
  split
  · rename_i f hf
    exact .error (Logging.keyless_ofText level json f hf)
  · exact .ok _

theorem keyless_settingsValue (u : Settings) : Keyless (s.settingsValue u).1 := by
  unfold settingsValue
  dsimp only
  exact s.memory.keyless_run _

theorem keyless_settings (c : SettingsCommand) : Keyless (s.settings c).1 := by
  cases c with (unfold settings; dsimp only)
  | setEnvironment => exact .ok _
  | readLevel => exact s.environment.keyless_level.map _
  | readTiming => exact s.environment.keyless_timing.map _
  | showSettings u => exact s.keyless_settingsValue u
  | configure level json => exact s.keyless_configure level json
  | readSettings =>
    split
    · exact s.keyless_settingsValue _
    · rename_i f hf
      exact .error (s.environment.keyless_settings f hf)
  | configureFromEnvironment =>
    split
    · exact s.keyless_configure _ _
    · rename_i f hf
      exact .error (s.environment.keyless_settings f hf)
  | log e =>
    unfold logChecked
    split
    · exact .ok _
    · rename_i f hf
      exact .error (e.keyless_lines s.sink f hf)

end Session

end CheckedMemo
