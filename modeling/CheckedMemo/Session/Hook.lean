import CheckedMemo.Session.Basic

/-!
# Hooks and fetches

The hook of an override captures the artifact of a key before the code behind it answers the query.
The artifact is extracted in a timed block, outside of any cache, and only then populated; a key
that has its artifact already is passed on at once.  Fetching runs the query only if the artifact is
not there yet, and then retrieves it.
-/

namespace CheckedMemo

namespace Program

/-- Runs `next` on the text of a value. -/
def withText (v : Value) (next : String → Program) : Program :=
  .bind (.perform (.spell v)) fun text =>
    match text with
    | .text s => next s
    | _ => next ""

end Program

namespace Override

/-- Extracts the artifact of a call in a timed block. -/
def extraction (o : Override) (call : Call) : Program :=
  .withText call.key fun text =>
    .timed s!"{o.query} for {text}" none (.invoke o.extract call)

/-- Captures the artifact of a call unless its key has one; `id` is the number of the override. -/
def capture (o : Override) (id : Nat) (call : Call) : Program :=
  .reach (.artifacts id) fun place =>
    .branch (.contains place call.key) (.done .null)
      (.bind (o.extraction call) fun artifact =>
        .populate place call.key fun _ => .done artifact)

/-- What the hook of an override does with a call: it captures the artifact, and passes the call
on. -/
def hook (o : Override) (id behind : Nat) (call : Call) : Program :=
  .andThen (o.capture id call) (.invoke behind call)

/-- Runs the query of an override on a provider table unless the key of the call has its artifact,
and retrieves that. -/
def fetch (o : Override) (id table : Nat) (call : Call) : Program :=
  .reach (.artifacts id) fun place =>
    .andThen
      (.branch (.contains place call.key) (.done .null)
        (.locate (.entry table o.query) fun code => .invoke code call))
      (.retrieve place call.key)

end Override

end CheckedMemo
