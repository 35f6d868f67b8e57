import Aviso.Watch.Guards
import Aviso.Watch.State
import Aviso.Watch.Backoff
import Aviso.State.Checkpoint

namespace Aviso.Watch

open State (Checkpoint)

/-- A trigger; `label` is how an error names its kind. -/
structure Trigger where
  label : String
  retries : Nat
  required : Bool
  failFast : Bool
  deriving DecidableEq, Repr

/-- `is_terminal_error`: whether a failed attempt ends the retries. -/
def Trigger.isTerminalError (t : Trigger) (err : TriggerError) : Bool :=
  t.failFast && match err with
    | .template | .command | .webhookBuild => true
    | .webhook (some status) => 400 ≤ status && status ≤ 499
    | .webhook none | .io | .encode | .timeout => false

structure WatchRequest where
  eventType : Text
  filter : List (Text × Json)
  start : Option ResumeStart
  until_ : Option ReplayEnd
  mode : WatchMode
  triggers : List Trigger
  hasStartupTimeout : Bool
  deriving Repr

/-- A request as `replay_only` and `replay_range` make it. -/
def WatchRequest.Replays (r : WatchRequest) : Prop := r.mode = .replayOnly ∧ r.start.isSome = true

/-- `WireWatchRequest::from_public`, the check of a request when its watch is started. -/
def WireWatchRequest.fromPublic (req : WatchRequest) : Except ClientError WireWatchRequest :=
  match req.start, req.until_ with
  | some (.afterSequence start), some (.sequence end_) =>
    if end_ ≤ start then
      .error (.config (s!"the replay end sequence {end_} is not after its start (after sequence " ++
        s!"{start}), so it would deliver nothing"))
    else fromParts req.eventType req.filter req.start req.until_
  | _, _ => fromParts req.eventType req.filter req.start req.until_

/-- What a supervisor is started with. -/
structure Setup where
  request : WatchRequest
  serde : Serde
  hasStore : Bool
  hasAuth : Bool
  flushCursorOnExit : Bool
  /-- Why the base URL cannot be joined with the endpoint, if it cannot. -/
  endpointError : Option String

/-- A store forces the channel to hold one item at a time. -/
def Setup.capacity (c : Setup) : Nat := if c.hasStore then 1 else 128

def Setup.relaxed (c : Setup) : Bool := !c.request.filter.isEmpty

structure PendingCommit where
  sequence : Nat
  eventId : String
  deriving DecidableEq, Repr

def Notification.pending (n : Notification) : PendingCommit :=
  ⟨n.sequence, String.ofList n.eventType ++ "@" ++ toString n.sequence⟩

def PendingCommit.checkpoint (p : PendingCommit) : Checkpoint := ⟨p.sequence, some p.eventId⟩

/-- `StateStore::put`: a checkpoint never replaces one at or above it. -/
def putMonotonic (held : Option Checkpoint) (cp : Checkpoint) : Option Checkpoint :=
  match held with
  | some existing =>
    if existing.lastCommittedSequence ≥ cp.lastCommittedSequence then some existing else some cp
  | none => some cp

/-- How one connection ended. -/
inductive ConnectionOutcome where
  | serverClosed
  | httpStatus (status : Nat) (body : Text) (requestId : Option Text) (retryAfter : Option Nat)
  | transportError
  | unexpectedEof
  | heartbeatStarved
  | openingTimedOut (e : ClientError)
  | fatal (e : ClientError)
  | cancelled
  deriving DecidableEq, Repr

/-- What a run does to the world outside it. -/
inductive Effect where
  | fetched (held : Option Checkpoint)
  | refreshCalled
  | backedOff (delay : Nat)
  | requested (body : WireWatchRequest)
  | confirmed (opening : Opening)
  | received (n : Notification)
  /-- A put takes effect in the store. -/
  | landed (cp : Checkpoint)
  /-- A put returns. -/
  | put (cp : Checkpoint) (ok : Bool)
  | dispatched (n : Notification)
  | attempted (trigger : Nat) (result : Except TriggerError Unit)
  | sent (n : Notification)
  | reported (e : ClientError)
  | ended (outcome : ConnectionOutcome) (short : Bool)

/-- The request of one connection and the position it was built from. -/
structure Attempt where
  wireFrom : Option ResumeStart
  body : WireWatchRequest

structure Connection where
  wireFrom : Option ResumeStart
  confirmed : Bool
  parser : Finesse.Parser
  gapGuard : GapGuard

/-- What one read left for the end of its iteration. -/
structure Chunk where
  eof : Bool
  overflow : Option Finesse.Overflow
  deriving DecidableEq, Repr

/-- Where the supervisor goes after an error item. -/
inductive After where
  | «return»
  | «break»
  /-- `drain_frames` returns `StopRequested`. -/
  | stopRequested
  deriving DecidableEq, Repr

/-- Where the supervisor is: each stage is an await, or a point the code between
two awaits starts from. -/
inductive Stage where
  | resolving
  | top
  | sleeping
  | refreshing
  | authorizing (a : Attempt)
  | opening (a : Attempt)
  | readingBody (status : Nat) (requestId : Option Text) (retryAfter : Option Nat)
  | reading (conn : Connection)
  | draining (conn : Connection) (chunk : Chunk)
  | putting (conn : Connection) (chunk : Chunk) (n : Notification) (landed : Bool)
  | dispatching (conn : Connection) (chunk : Chunk) (n : Notification) (i : Nat)
  | attempting (conn : Connection) (chunk : Chunk) (n : Notification) (i attempt : Nat)
  | backingOff (conn : Connection) (chunk : Chunk) (n : Notification) (i attempt : Nat)
  | sending (conn : Connection) (chunk : Chunk) (n : Notification)
  | ended (outcome : ConnectionOutcome)
  | reporting (e : ClientError) (after : After)
  | flushing (landed : Bool)
  | startupExpired
  | done

/-- Whether a run that is not confirmed may be found waiting in a stage: it is an await,
not a point between two of them. -/
def Stage.awaits : Stage → Bool
  | .top | .draining _ _ | .dispatching _ _ _ _ | .ended _ | .startupExpired | .done => false
  -- Nothing precedes the confirmation on the channel, so an error item has room at once.
  | .reporting _ _ => false
  | _ => true

/-- Whether a stage is the end of the run. -/
def Stage.isDone : Stage → Bool
  | .done => true
  | _ => false

/-- Whether a stage polls the per-stream cancellation receiver. -/
def Stage.polls : Stage → Bool
  | .resolving | .sleeping | .refreshing | .authorizing _ | .opening _ | .readingBody _ _ _
  | .reading _ | .dispatching _ _ _ _ | .backingOff _ _ _ _ _ | .sending _ _ _ | .reporting _ _ => true
  | .top | .draining _ _ | .putting _ _ _ _ | .attempting _ _ _ _ _ | .ended _ | .flushing _
  | .startupExpired | .done => false

/-- Whether a stage is in the exit flush. -/
def Stage.flushes : Stage → Bool
  | .flushing _ => true
  | _ => false

/-- The head of a response. `untilDate` is how far ahead an HTTP date lies. -/
structure Response where
  status : Nat
  contentType : Option Text
  requestId : Option Text
  retryAfter : Option Text
  untilDate : Text → Option Nat

/-- What the environment of the supervisor does next: which arm of an await
completes, and with what. -/
inductive Input where
  /-- The supervisor runs on to its next await. -/
  | proceed
  /-- The per-stream receiver or the parent's fires first. -/
  | cancelled
  | fetched (ok : Bool)
  | jitter (n : Nat)
  | slept
  | refreshed (result : Except ClientError Unit)
  | header (result : Except ClientError Unit)
  /-- The opening deadline passes. -/
  | deadline
  | transportError
  | response (r : Response)
  | body (bytes : List UInt8)
  | chunk (bytes : List UInt8)
  | eof
  | starved
  | lands
  | stored
  | storeFailed
  /-- `check_cancelled` between two triggers. -/
  | probe (fired : Bool)
  | attempt (result : Except TriggerError Unit)
  /-- The channel takes an item. -/
  | accepted
  | channelClosed
  /-- Whether the session took less than `MIN_HEALTHY_SESSION`. -/
  | elapsed (short : Bool)
  | startupExpires
  /-- The consumer takes the oldest item. -/
  | pull
  /-- The consumer drops the receiver. -/
  | hangUp

/-- An await, or the probe between two triggers, observes a cancellation. -/
def Input.Observes : Input → Prop
  | .cancelled | .probe true => True
  | _ => False

/-- What `run_supervisor` keeps across connections. -/
structure Supervisor where
  state : WatchState
  lastReconnectPolicy : Option ReconnectPolicy
  retryCounter : Nat
  shortSessions : Nat
  retryAfterOverride : Option Nat
  initialCursor : Option ResumeStart
  commitCursor : Option Nat
  pendingCommit : Option PendingCommit
  resolvedEnd : Option Nat
  refreshedForCurrentAttempt : Bool
  ready : Bool
  deriving DecidableEq, Repr

/-- The channel to the consumer. -/
structure Channel where
  buffer : List (Except ClientError Notification)
  closed : Bool

/-- A running watch: the supervisor, the store's checkpoint for its key, the
channel, and what the run has done so far. -/
structure System where
  stage : Stage
  vars : Supervisor
  store : Option Checkpoint
  channel : Channel
  trace : List Effect

end Aviso.Watch
