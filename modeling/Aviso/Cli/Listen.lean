import Aviso.Lib.Runs
import Aviso.Watch.Session

namespace Aviso.Cli.Listen

open Watch (ResumeStart Trigger WatchRequest)

/-- The exit codes. -/
def success : Nat := 0
def runtimeError : Nat := 1
def usageError : Nat := 2
def hardSigint : Nat := 130

/-- `DOUBLE_SIGINT_WINDOW`, in nanoseconds. -/
def doubleSigintWindow : Nat := Watch.seconds 5

structure ListenerSpec where
  name : Option Text := none
  event : Text
  identifiers : List (Text × Json) := []
  fromId : Option Nat := none
  fromDate : Option Text := none
  triggers : List Trigger := []

inductive UsageError where
  | bothCursors (listener : Text)
  | noListeners
  | cursor (value : Text)
  | listenerFile
  deriving DecidableEq, Repr

def buildWatchRequest (hasStartupTimeout : Bool) (spec : ListenerSpec) : Except UsageError WatchRequest := do
  let resumeStart ←
    match spec.fromId, spec.fromDate with
    | some _, some _ => .error (.bothCursors (spec.name.getD spec.event))
    | some id, none => .ok (some (.afterSequence id))
    | none, some d => .ok (some (.date d))
    | none, none => .ok none
  return ⟨spec.event, spec.identifiers, resumeStart, none, .watch, spec.triggers, hasStartupTimeout⟩

def applyCursorOverride (listeners : List ListenerSpec) (cursor : ResumeStart) : List ListenerSpec :=
  listeners.map fun spec =>
    match cursor with
    | .afterSequence n => { spec with fromId := some n, fromDate := none }
    | .date d => { spec with fromId := none, fromDate := some d }

/-- `resolve_listeners`; `files` are the listeners of the files that are named, if any are. -/
def resolveListeners (configured : List ListenerSpec) (files : Option (Except UsageError (List ListenerSpec))) :
    Except UsageError (List ListenerSpec) :=
  files.getD (.ok configured)

/-- The listeners that `run` is told of: the one of the command line, or those it resolves. -/
def toldListeners (inline : Option ListenerSpec) (configured : List ListenerSpec)
    (files : Option (Except UsageError (List ListenerSpec))) : Except UsageError (List ListenerSpec) :=
  match inline with
  | some spec => .ok [spec]
  | none =>
    match resolveListeners configured files with
    | .error e => .error e
    | .ok resolved => if resolved.isEmpty then .error .noListeners else .ok resolved

/-- The listeners of `run`, before anything is started. -/
def listeners (inline : Option ListenerSpec) (configured : List ListenerSpec)
    (files : Option (Except UsageError (List ListenerSpec))) (start : Option (Except UsageError ResumeStart)) :
    Except UsageError (List ListenerSpec) := do
  let listeners ← toldListeners inline configured files
  match start with
  | some parsed => return applyCursorOverride listeners (← parsed)
  | none => return listeners

/-- The handler of interrupts and the flag it sends. A receiver that has not seen the flag's version
finds it changed. The sender stays as long as the command: a handler that cannot be installed is parked. -/
structure Cancel where
  lastSignal : Option Nat
  parked : Bool
  version : Nat
  flag : Bool
  deriving DecidableEq, Repr

namespace Cancel

def install : Cancel := ⟨none, false, 0, false⟩

/-- Whether an interrupt is the second one within the window. -/
def isHard (c : Cancel) (now : Nat) : Bool := c.lastSignal.any fun prev => now - prev ≤ doubleSigintWindow

/-- One turn of `handler_task` that does not exit. -/
def send (c : Cancel) (now : Nat) : Cancel :=
  { c with lastSignal := some now, version := c.version + 1, flag := true }

end Cancel

/-- How the task of a listener ends. -/
inductive Outcome (ε : Type) where
  | ok
  | failed (e : ε)
  | panicked
  deriving DecidableEq, Repr

def Outcome.isFailure {ε : Type} : Outcome ε → Bool
  | .ok => false
  | .failed _ | .panicked => true

inductive Phase (ε : Type) where
  | spawned
  /-- Before the select; `waiting` for the confirmation. -/
  | selecting (waiting : Bool)
  /-- In the select, behind its first branch, which is pending. -/
  | polling (waiting : Bool)
  | closing (result : Except ε Unit)
  | finished (outcome : Outcome ε)

/-- The notification stream of a listener. -/
inductive Stream where
  | unopened
  | opened
  | closed
  | dropped
  deriving DecidableEq, Repr

/-- The task of a listener, with the version of the flag that its receiver has seen. -/
structure Task (ε : Type) where
  seen : Nat
  phase : Phase ε
  stream : Stream

/-- What happens to a task: it is polled, and one of its futures answers. -/
inductive TaskEvent (ε : Type) where
  /-- The first poll; `opened` is what `watch` would return. -/
  | start (opened : Except ε Unit)
  /-- The branches of the select, in their order: the flag has changed, or it has not. -/
  | cancelled
  | look
  /-- The confirmation of the server, and what writing the status line gives. -/
  | ready (confirmed : Bool) (written : Except ε Unit)
  | item (item : Option (Except ε Unit))
  | pending
  /-- `close` returns. -/
  | closed
  | panic

namespace Task

variable {ε : Type}

def spawned : Task ε := ⟨0, .spawned, .unopened⟩

def ofResult : Except ε Unit → Outcome ε
  | .ok () => .ok
  | .error e => .failed e

/-- `spawn_listener_drain`, with the flag as it is when the task is polled. -/
def step (c : Cancel) (t : Task ε) : TaskEvent ε → Option (Task ε)
  | .start opened =>
    match t.phase with
    | .spawned =>
      if c.flag then some { t with phase := .finished .ok }
      else
        match opened with
        | .ok () => some { t with phase := .selecting true, stream := .opened }
        | .error e => some { t with phase := .finished (.failed e) }
    | _ => none
  | .cancelled =>
    match t.phase with
    | .selecting _ => if c.version ≠ t.seen then some { t with seen := c.version, phase := .closing (.ok ()) } else none
    | _ => none
  | .look =>
    match t.phase with
    | .selecting waiting => if c.version = t.seen then some { t with phase := .polling waiting } else none
    | _ => none
  | .ready confirmed written =>
    match t.phase with
    | .polling true =>
      match confirmed, written with
      | true, .error e => some { t with phase := .closing (.error e) }
      | _, _ => some { t with phase := .selecting false }
    | _ => none
  | .item item =>
    match t.phase with
    | .polling waiting =>
      match item with
      | some (.ok ()) => some { t with phase := .selecting waiting }
      | some (.error e) => some { t with phase := .closing (.error e) }
      | none => some { t with phase := .closing (.ok ()) }
    | _ => none
  | .pending =>
    match t.phase with
    | .polling waiting => some { t with phase := .selecting waiting }
    | _ => none
  | .closed =>
    match t.phase with
    | .closing result => some { t with phase := .finished (ofResult result), stream := .closed }
    | _ => none
  | .panic =>
    match t.phase with
    | .finished _ => none
    | _ => some { t with phase := .finished .panicked, stream := if t.stream = .opened then .dropped else t.stream }

end Task

/-- `drive` and the tasks of its join set, with the handler beside them. -/
structure Drive (ε : Type) where
  cancel : Cancel
  remaining : List ListenerSpec
  tasks : List (Task ε)
  /-- The tasks that the join loop has taken, in its order. -/
  joined : List Nat
  anyFailed : Bool
  exit : Option Nat

inductive DriveEvent (ε : Type) where
  /-- An interrupt reaches the handler at this time. -/
  | signal (now : Nat)
  | installFails
  /-- `drive` turns to the next listener. -/
  | spawn
  | task (i : Nat) (event : TaskEvent ε)
  | join (i : Nat)
  /-- The join set is empty. -/
  | finish

namespace Drive

variable {ε : Type}

def init (listeners : List ListenerSpec) : Drive ε := ⟨.install, listeners, [], [], false, none⟩

/-- The steps of the command; none follows its exit. -/
def step (hasStartupTimeout : Bool) : Lib.Machine (Drive ε) (DriveEvent ε) := fun s event =>
  if s.exit.isSome then none
  else
    match event with
    | .signal now =>
      if s.cancel.parked || !s.cancel.lastSignal.all (· ≤ now) then none
      else if s.cancel.isHard now then some { s with exit := some hardSigint }
      else some { s with cancel := s.cancel.send now }
    | .installFails => if s.cancel.parked then none else some { s with cancel := { s.cancel with parked := true } }
    | .spawn =>
      match s.remaining with
      | [] => none
      | spec :: rest =>
        match buildWatchRequest hasStartupTimeout spec with
        | .error _ => some { s with exit := some usageError }
        | .ok _ => some { s with remaining := rest, tasks := s.tasks ++ [.spawned] }
    | .task i event =>
      (s.tasks[i]?.bind fun t => t.step s.cancel event).map fun t => { s with tasks := s.tasks.set i t }
    | .join i =>
      match s.tasks[i]?.map Task.phase with
      | some (.finished outcome) =>
        if s.remaining.isEmpty && !s.joined.contains i then
          some { s with joined := s.joined ++ [i], anyFailed := s.anyFailed || outcome.isFailure }
        else none
      | _ => none
    | .finish =>
      if s.remaining.isEmpty && s.joined.length = s.tasks.length then
        some { s with exit := some (if s.anyFailed then runtimeError else success) }
      else none

end Drive

end Aviso.Cli.Listen
