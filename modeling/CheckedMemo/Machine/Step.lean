import CheckedMemo.Machine.Basic

/-!
# Steps of the machine

A step evaluates one layer of a program, or takes the outcome of a program to the innermost frame.
A machine whose program has ended stays as it is.

What a cache does between two pieces of a program's own code is one step: looking a key up and
marking it, storing a value and taking the mark away.  So the state in which a program's code runs
is always one that the cache meant to leave.
-/

namespace CheckedMemo.Machine

/-- Asks a stable cache for a value.  On a miss its computation starts with no view held. -/
def getStable (id : Nat) (c : StableCache) (key : Value) (compute : Value → Program)
    (stack : List Frame) (s : Session) : Machine :=
  match c.start s.thread (s.request key) with
  | .error f => refuse f stack s
  | .ok (.hit v c) => ⟨.give v, stack, s.setStable id c⟩
  | .ok (.miss spelled k c) =>
    ⟨.eval (compute key), .computing id spelled k :: stack,
      (s.setStable id c).log (.cacheMiss c.label spelled)⟩

/-- Asks a value cache for a value.  The write view is held until the copy is made. -/
def getValue (id : Nat) (c : ValueCache) (key : Value) (compute : Value → Program)
    (stack : List Frame) (s : Session) : Machine :=
  match c.start (s.request key) with
  | .error f => refuse f stack s
  | .ok (.hit v c) => ⟨.eval (.copy v), .release id .write :: stack, s.setValue id c⟩
  | .ok (.miss spelled k c) =>
    ⟨.eval (compute key), .storing id k :: .release id .write :: stack,
      (s.setValue id c).log (.cacheMiss c.label spelled)⟩

/-- Asks a cache for a value. -/
def get (id : Nat) (key : Value) (compute : Value → Program) (stack : List Frame) (s : Session) :
    Machine :=
  match s.resources[id]? with
  | some (.stable c) => getStable id c key compute stack s
  | some (.value c) => getValue id c key compute stack s
  | _ => refuse Session.unsuitable stack s

/-- Reads the value stored for a key. -/
def peek (id : Nat) (key : Value) (stack : List Frame) (s : Session) : Machine :=
  match s.resources[id]? with
  | some (.stable c) => reply stack (c.peek (s.request key), s)
  | some (.value c) =>
    match c.openStored (s.request key) with
    | .error f => refuse f stack s
    | .ok (v, c) => ⟨.eval (.copy v), .release id .read :: stack, s.setValue id c⟩
  | _ => refuse Session.unsuitable stack s

/-- Makes a shallow copy: a new container with the same contents for a list, a dictionary or an
object, and the value itself otherwise.  An object may have its copies made by code of its own. -/
def copy (v : Value) (stack : List Frame) (s : Session) : Machine :=
  let made (new : Value × Memory) : Machine := ⟨.give new.1, stack, { s with memory := new.2 }⟩
  match v with
  | .list a | .dict a | .object a =>
    match s.memory.contents? a with
    | some (.list items) => made (s.memory.newList items.toList)
    | some (.dict d) => made (s.memory.newDict d)
    | some (.object payload none) => made (s.memory.newObject payload none)
    | some (.object payload (some code)) => ⟨.eval (.invoke code { key := payload }), stack, s⟩
    | none => ⟨.give v, stack, s⟩
  | v => ⟨.give v, stack, s⟩

/-- Starts a timed block if it is enabled, by its own choice or else by the environment. -/
def time (label : String) (enabled : Option Bool) (body : Program) (stack : List Frame)
    (s : Session) : Machine :=
  match enabled.elim s.environment.timing .ok with
  | .error f => refuse f stack s
  | .ok true => ⟨.eval body, .timer label :: stack, s⟩
  | .ok false => ⟨.eval body, stack, s⟩

/-- Runs a body inside a view. -/
def openView (id : Nat) (mode : Mode) (key : Value) (body : Value → Program) (stack : List Frame)
    (s : Session) : Machine :=
  match s.openView id mode key with
  | .error f => refuse f stack s
  | .ok o => ⟨.eval (body o.content), .release id mode :: stack, o.session⟩

/-- Calls stored code. -/
def invoke (code : Nat) (call : Call) (stack : List Frame) (s : Session) : Machine :=
  match s.code[code]? with
  | some (.body run) => ⟨.eval (run call), stack, s⟩
  | some (.hook id behind) =>
    match s.overrides[id]? with
    | some o => ⟨.eval (o.hook id behind call), stack, s⟩
    | none => refuse Session.unsuitable stack s
  | none => refuse Session.unsuitable stack s

/-- Starts on a program. -/
def begin (p : Program) (stack : List Frame) (s : Session) : Machine :=
  match p with
  | .done v => ⟨.give v, stack, s⟩
  | .fail t => ⟨.raise (.thrown t), stack, s⟩
  | .perform c => reply stack (s.perform c)
  | .bind first next => ⟨.eval first, .bind next :: stack, s⟩
  | .attempt body kinds handler => ⟨.eval body, .attempt kinds handler :: stack, s⟩
  | .on thread body => ⟨.eval body, .thread s.thread :: stack, { s with thread }⟩
  | .timed label enabled body => time label enabled body stack s
  | .reach target next =>
    match s.locate target with
    | .ok (place, s) => ⟨.eval (next place), stack, s⟩
    | .error f => refuse f stack s
  | .view place mode key body => openView place.id mode key body stack s
  | .get place key compute => get place.id key compute stack s
  | .peek place key => peek place.id key stack s
  | .copy v => copy v stack s
  | .store body next =>
    let (id, s) := s.addCode (.body body)
    ⟨.eval (next id), stack, s⟩
  | .locate source next =>
    match s.codeAt source with
    | .ok id => ⟨.eval (next id), stack, s⟩
    | .error f => refuse f stack s
  | .invoke code call => invoke code call stack s
  | .resolve override providers next =>
    match s.overrideAndTable override providers with
    | .ok (id, table) => ⟨.eval (next id table), stack, s⟩
    | .error f => refuse f stack s
  | .fetch id table call =>
    match s.overrides[id]? with
    | some o => ⟨.eval (o.fetch id table call), stack, s⟩
    | none => refuse Session.unsuitable stack s

/-- Ends the computation of a key for a stable cache. -/
def finish (id : Nat) (key : Spelled) (k : Key) (outcome : Except Fault Value)
    (stack : List Frame) (s : Session) : Machine :=
  match s.resources[id]? with
  | some (.stable c) =>
    let r := c.finish key k outcome
    let s := r.refusals.foldl Session.report (s.setStable id r.cache)
    match r.outcome with
    | .ok v => ⟨.give v, stack, s⟩
    | .error f => ⟨.raise f, stack, s⟩
  | _ => refuse Session.unsuitable stack s

/-- Stores the computed value of a key in a value cache, and copies it. -/
def deposit (id : Nat) (k : Key) (v : Value) (stack : List Frame) (s : Session) : Machine :=
  match s.resources[id]? with
  | some (.value c) => ⟨.eval (.copy v), stack, s.setValue id (c.deposit k v)⟩
  | _ => refuse Session.unsuitable stack s

/-- Takes a value to a frame. -/
def resume (v : Value) (frame : Frame) (stack : List Frame) (s : Session) : Machine :=
  match frame with
  | .bind next => ⟨.eval (next v), stack, s⟩
  | .attempt .. => ⟨.give v, stack, s⟩
  | .thread back => ⟨.give v, stack, { s with thread := back }⟩
  | .timer label => ⟨.give v, stack, s.log (.blockTimer label)⟩
  | .release id mode => ⟨.give v, stack, s.release id mode⟩
  | .computing id key k => finish id key k (.ok v) stack s
  | .storing id k => deposit id k v stack s

/-- Takes a fault to a frame. -/
def unwind (f : Fault) (frame : Frame) (stack : List Frame) (s : Session) : Machine :=
  match frame with
  | .bind _ | .storing .. => ⟨.raise f, stack, s⟩
  | .attempt kinds handler =>
    if kinds.any f.kind.isA then ⟨.eval (handler f), stack, s⟩ else ⟨.raise f, stack, s⟩
  | .thread back => ⟨.raise f, stack, { s with thread := back }⟩
  | .timer label => ⟨.raise f, stack, s.log (.blockTimer label)⟩
  | .release id mode => ⟨.raise f, stack, s.release id mode⟩
  | .computing id key k => finish id key k (.error f) stack s

/-- One step. -/
def step (m : Machine) : Machine :=
  match m.control, m.stack with
  | .eval p, stack => begin p stack m.session
  | .give v, frame :: stack => resume v frame stack m.session
  | .raise f, frame :: stack => unwind f frame stack m.session
  | _, [] => m

/-- At most `fuel` steps, fewer if the program ends before. -/
def run : Nat → Machine → Machine
  | 0, m => m
  | fuel + 1, m => if m.outcome?.isSome then m else run fuel m.step

/-! ### Laws -/

/-- A machine whose program has ended stays as it is. -/
theorem step_eq_self {m : Machine} (h : m.outcome?.isSome = true) : m.step = m := by
  obtain ⟨control, stack, s⟩ := m
  cases control <;> cases stack <;> simp_all [outcome?, step]

end CheckedMemo.Machine
