import CheckedMemo.Machine.Step

/-!
# Transcripts

A session is a series of programs that run one after the other, each on what the ones before it have
left; a program that fails does not end the session.  Its transcript shows the outcome of each
program and what its run added to the journal: the marks, and of the log events either all, or none,
or the lines that were written.  A value in which an integer has too many digits is no outcome that
can be shown: the failure to write it takes its place.
-/

namespace CheckedMemo

/-- Which log events a transcript shows. -/
inductive Audience where
  /-- Every event, whatever is configured. -/
  | events
  | nothing
  /-- The lines that were written under the configuration of logging at the time. -/
  | lines
  deriving DecidableEq, Repr

/-- What a transcript shows of an entry of the journal. -/
inductive Observation where
  | mark (seen : Snapshot)
  | event (event : Event)
  | line (line : Line)

/-- What becomes of log events before a program configures logging: only an audience for lines has
them rendered. -/
def Audience.sink : Audience → Sink
  | .events | .nothing => .collected
  | .lines => .unseen

/-- What a transcript shows of an entry. -/
def Entry.shown (audience : Audience) : Entry → List Observation
  | .mark seen => [.mark seen]
  | .event e sink =>
    match audience with
    | .events => [.event e]
    | .nothing => []
    | .lines => (e.lines sink).toOption.elim [] (·.map .line)

/-- How a program ended, as it is seen at its end. -/
inductive Ending where
  | value (seen : Snapshot)
  /-- A fault, with the key and the operation of the request if it stands for a broken contract. -/
  | fault (kind : Kind) (message : String) (request : Option (Snapshot × Option String))
  /-- The program had not ended when its steps were used up. -/
  | unfinished

/-- The part of a transcript for one program. -/
structure Passage where
  ending : Ending
  trace : List Observation

namespace Session

/-- The session at its start: nothing made yet, an environment, and an audience. -/
def start (audience : Audience) (environment : List (String × Option String)) : Session :=
  { environment := Environment.change ∅ environment, sink := audience.sink }

/-- How the run of a program ended. -/
def ending (s : Session) : Option (Except Fault Value) → Ending
  | some (.ok v) =>
    match s.memory.written v with
    | .ok seen => .value seen
    | .error f => .fault f.kind f.message none
  | some (.error f) =>
    .fault f.kind f.message (f.key?.map fun key => (s.memory.snapshot key, f.operation?))
  | none => .unfinished

/-- Runs a program for at most `fuel` steps, and gives its part of the transcript and the session
that it leaves. -/
def passage (fuel : Nat) (audience : Audience) (s : Session) (p : Program) : Passage × Session :=
  let m := (Machine.load p s).run fuel
  let added := m.session.journal.toList.drop s.journal.size
  (⟨m.session.ending m.outcome?, added.flatMap (Entry.shown audience)⟩, m.session)

/-- The transcript of programs that run one after the other, each for at most `fuel` steps. -/
def transcript (fuel : Nat) (audience : Audience) (s : Session) : List Program → List Passage
  | [] => []
  | p :: ps =>
    let (passage, s) := s.passage fuel audience p
    passage :: s.transcript fuel audience ps

end Session

end CheckedMemo
