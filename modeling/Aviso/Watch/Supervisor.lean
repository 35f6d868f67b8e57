import Aviso.Watch.Session
import Aviso.Lib.Runs

namespace Aviso.Watch

/-- `apply_outcome`. -/
def applyOutcome (lastReconnectPolicy : Option ReconnectPolicy) :
    WatchOutcome → Option ReconnectPolicy
  | .reconnect policy => some policy
  | .continue | .refreshAuth | .gap _ | .stop _ => lastReconnectPolicy

/-- `replay_end::effective`. -/
def effectiveEnd (resolved : Option Nat) (requested : Option ReplayEnd) : Option ReplayEnd :=
  (resolved.map ReplayEnd.sequence).or requested

/-- The highest sequence handed to the consumer: the pending one, else the committed one. -/
def lastDelivered (pending : Option PendingCommit) (committed : Option Nat) : Option Nat :=
  (pending.map (·.sequence)).or committed

/-- `replay_end::reached`. -/
def replayReached (end_ : Option ReplayEnd) (pending : Option PendingCommit)
    (committed : Option Nat) : Bool :=
  match end_ with
  | some (.sequence e) => (lastDelivered pending committed).any (e ≤ ·)
  | _ => false

/-- A notification was sent: it becomes pending above both cursors. -/
def raisePending (commit : Option Nat) (pending : Option PendingCommit) (n : Notification) :
    Option PendingCommit :=
  if commit.all (· < n.sequence) ∧ pending.all (·.sequence < n.sequence) then some n.pending
  else pending

namespace Supervisor

/-- Before the start position is resolved. -/
def initial : Supervisor :=
  ⟨.watch none, none, 0, 0, none, none, none, none, none, false, false⟩

/-- The variables of the reconnect loop once the start position is known. -/
def start (state : WatchState) (initialCursor : Option ResumeStart) : Supervisor :=
  { initial with
    state := state
    initialCursor := initialCursor
    commitCursor := initialCursor.bind ResumeStart.sequence }

def transition (v : Supervisor) (event : WatchEvent) : Supervisor :=
  { v with
    state := (v.state.transition event).2
    lastReconnectPolicy := applyOutcome v.lastReconnectPolicy (v.state.transition event).1 }

/-- Where the next connection resumes. -/
def wireFrom (v : Supervisor) : Option ResumeStart :=
  ((lastDelivered v.pendingCommit v.commitCursor).map ResumeStart.afterSequence).or v.initialCursor

def wireUntil (v : Supervisor) (request : WatchRequest) : Option ReplayEnd :=
  effectiveEnd v.resolvedEnd request.until_

def delivered (v : Supervisor) (n : Notification) : Supervisor :=
  { v with pendingCommit := raisePending v.commitCursor v.pendingCommit n }

/-- The bookkeeping after a lost connection. -/
def lost (v : Supervisor) : Supervisor :=
  { v with retryCounter := saturatingSucc32 v.retryCounter, refreshedForCurrentAttempt := false }

@[simp] theorem transition_initialCursor (v : Supervisor) (e : WatchEvent) :
    (v.transition e).initialCursor = v.initialCursor := rfl
@[simp] theorem transition_commitCursor (v : Supervisor) (e : WatchEvent) :
    (v.transition e).commitCursor = v.commitCursor := rfl
@[simp] theorem transition_pendingCommit (v : Supervisor) (e : WatchEvent) :
    (v.transition e).pendingCommit = v.pendingCommit := rfl

end Supervisor

namespace System

def emit (s : System) (e : Effect) : System := { s with trace := s.trace ++ [e] }

def goto (s : System) (stage : Stage) : System := { s with stage := stage }

def setVars (s : System) (vars : Supervisor) : System := { s with vars := vars }

/-- Applies an event to the reducer. -/
def apply (s : System) (event : WatchEvent) : System := s.setVars (s.vars.transition event)

/-- A connection ends. -/
def close (s : System) (outcome : ConnectionOutcome) : System := s.goto (.ended outcome)

/-- Leaves the reconnect loop for the exit flush. -/
def leave (c : Setup) (s : System) : System :=
  if c.flushCursorOnExit && c.hasStore && s.vars.pendingCommit.isSome then s.goto (.flushing false)
  else s.goto .done

/-- Sends an error item and leaves the loop. -/
def fail (s : System) (e : ClientError) : System := s.goto (.reporting e .break)

/-- The code after the start position is resolved, up to the loop. -/
def resolved (c : Setup) (s : System) (cursor : Option ResumeStart) : System :=
  match c.request.mode, cursor with
  | .watch, cursor => (s.setVars (.start (.watch cursor) cursor)).goto .top
  | .replayOnly, some cursor =>
    (s.setVars (.start (.replayOnly cursor) (some cursor))).goto .top
  | .replayOnly, none =>
    s.goto (.reporting (.config "replay-only watch requires a resume position") .return)

/-- `initial_cursor::resolve`. -/
def stepResolving (c : Setup) (s : System) : Input → Option System
  | .proceed =>
    match c.request.start with
    | some start => some (s.resolved c (some start))
    | none => if c.hasStore then none else some (s.resolved c none)
  | .cancelled => if c.request.start.isNone && c.hasStore then some (s.goto .done) else none
  | .fetched true =>
    if c.request.start.isNone && c.hasStore then
      some ((s.emit (.fetched s.store)).resolved c
        (s.store.map fun cp => .afterSequence cp.lastCommittedSequence))
    else none
  | .fetched false =>
    if c.request.start.isNone && c.hasStore then
      some (s.goto (.reporting .stateStore .return))
    else none
  | _ => none

def endpoint : WatchMode → String
  | .watch => "api/v1/watch"
  | .replayOnly => "api/v1/replay"

/-- The start of `run_one_connection`, up to its first await. -/
def connect (c : Setup) (s : System) : System :=
  match c.endpointError with
  | some e =>
    s.close (.fatal (.config
      ("build watch endpoint url for \"" ++ endpoint c.request.mode ++ "\": " ++ e)))
  | none =>
    match WireWatchRequest.fromParts c.request.eventType c.request.filter s.vars.wireFrom
        (s.vars.wireUntil c.request) with
    | .error e => s.close (.fatal e)
    | .ok body =>
      if c.hasAuth then s.goto (.authorizing ⟨s.vars.wireFrom, body⟩)
      else (s.emit (.requested body)).goto (.opening ⟨s.vars.wireFrom, body⟩)

/-- The loop body from the auth refresh on. -/
def afterBackoff (c : Setup) (s : System) : System :=
  if s.vars.state.connectionStatus = .refreshingAuth then
    if c.hasAuth then (s.emit .refreshCalled).goto .refreshing
    else
      (s.apply (.authRefreshCompleted false)).fail
        (.auth "auth refresh requested but no auth provider is configured")
  else s.connect c

/-- The attempt number and the policy a delay is computed from. -/
def backoffOf (v : Supervisor) (policy : ReconnectPolicy) : Nat × ReconnectPolicy :=
  if policy = .immediate ∧ 0 < v.shortSessions then (v.shortSessions - 1, .exponentialBackoff)
  else (v.retryCounter - 1, policy)

/-- The loop body up to its first await. -/
def stepTop (c : Setup) (s : System) (jitter : Nat) : System :=
  if s.vars.state.isTerminal then s.leave c
  else if replayReached (s.vars.wireUntil c.request) s.vars.pendingCommit s.vars.commitCursor then
    s.leave c
  else
    match s.vars.lastReconnectPolicy with
    | none => s.afterBackoff c
    | some policy =>
      let (attempt, policy) := backoffOf s.vars policy
      let delay := s.vars.retryAfterOverride.getD (computeBackoff jitter attempt policy)
      let s := (s.setVars { s.vars with lastReconnectPolicy := none, retryAfterOverride := none }).emit
        (.backedOff delay)
      if delay = 0 then s.afterBackoff c else (s.apply (.backoffStarted delay)).goto .sleeping

def stepSleeping (c : Setup) (s : System) : Input → Option System
  | .cancelled => some (s.leave c)
  | .slept => some ((s.apply .backoffElapsed).afterBackoff c)
  | _ => none

def stepRefreshing (c : Setup) (s : System) : Input → Option System
  | .cancelled => some (s.leave c)
  | .refreshed (.ok ()) =>
    some (((s.setVars { s.vars with refreshedForCurrentAttempt := true }).apply
      (.authRefreshCompleted true)).connect c)
  | .refreshed (.error e) => some ((s.apply (.authRefreshCompleted false)).fail e)
  | _ => none

def stepAuthorizing (s : System) (a : Attempt) : Input → Option System
  | .cancelled => some (s.close .cancelled)
  | .header (.ok ()) => some ((s.emit (.requested a.body)).goto (.opening a))
  | .header (.error e) => some (s.close (.fatal e))
  | _ => none

/-- The first media type of a `Content-Type` header, without case. -/
def isEventStream (contentType : Option Text) : Bool :=
  contentType.any fun value =>
    (trim (value.takeWhile (· ≠ ';'))).map Char.toLower = "text/event-stream".toList

def openingExpired (v : Supervisor) (e : ClientError) : ConnectionOutcome :=
  if v.ready then .openingTimedOut e else .fatal e

def guardFor (c : Setup) (wireFrom : Option ResumeStart) : GapGuard :=
  if c.relaxed then .relaxedStartingFrom wireFrom else .startingFrom wireFrom

def stepOpening (c : Setup) (s : System) (a : Attempt) : Input → Option System
  | .cancelled => some (s.close .cancelled)
  | .deadline => some (s.close (openingExpired s.vars Opening.noResponse))
  | .transportError => some (s.close .transportError)
  | .response r =>
    if r.status ≠ 200 then
      some (s.goto (.readingBody r.status r.requestId (parseRetryAfter r.retryAfter r.untilDate)))
    else if isEventStream r.contentType then
      some (s.goto (.reading ⟨a.wireFrom, false, .withLimits .default, guardFor c a.wireFrom⟩))
    else
      some (s.close (.fatal
        (Opening.protocol "HTTP 200 response requires Content-Type text/event-stream")))
  | _ => none

def stepReadingBody (s : System) (status : Nat) (requestId : Option Text)
    (retryAfter : Option Nat) : Input → Option System
  | .cancelled => some (s.close .cancelled)
  | .deadline => some (s.close (.httpStatus status [] requestId retryAfter))
  | .transportError => some (s.close .transportError)
  | .body bytes => some (s.close (.httpStatus status (Lib.Utf8.decode bytes) requestId retryAfter))
  | _ => none

/-- The variables once a connection is confirmed. -/
def confirm (c : Setup) (s : System) (opening : Opening) : System :=
  let resolvedEnd :=
    if s.vars.resolvedEnd.isNone && c.request.until_.isSome then
      opening.endSequence.or s.vars.resolvedEnd
    else s.vars.resolvedEnd
  ((s.setVars { s.vars with resolvedEnd := resolvedEnd, retryCounter := 0, ready := true }).apply
    .connectionEstablished).emit (.confirmed opening)

/-- The chunk loop after a read: the opening gate, then `drain_frames`. -/
def receive (c : Setup) (s : System) (conn : Connection) (chunk : Chunk) : System :=
  if conn.confirmed then s.goto (.draining conn chunk)
  else
    match Opening.confirmed c.serde conn.wireFrom.isSome conn.parser.queue with
    | (.error e, _) => s.close (.fatal e)
    | (.ok (some opening), queue) =>
      (s.confirm c opening).goto
        (.draining { conn with confirmed := true, parser := { conn.parser with queue := queue } }
          chunk)
    | (.ok none, queue) =>
      let conn := { conn with parser := { conn.parser with queue := queue } }
      if !chunk.eof && chunk.overflow.isNone then s.goto (.reading conn)
      else s.goto (.draining conn chunk)

def overflowOf : Except Finesse.Overflow Unit → Option Finesse.Overflow
  | .ok () => none
  | .error overflow => some overflow

def stepReading (c : Setup) (s : System) (conn : Connection) : Input → Option System
  | .cancelled => some ((s.apply .stop).close .cancelled)
  | .deadline =>
    if conn.confirmed then none
    else
      some (s.close (openingExpired s.vars
        (Opening.protocol "Aviso opening deadline exceeded (10s)")))
  | .starved => some ((s.apply .heartbeatStarvation).close .heartbeatStarved)
  | .transportError => some (s.close .transportError)
  | .chunk bytes =>
    some (s.receive c { conn with parser := (conn.parser.feed bytes).2 }
      ⟨false, overflowOf (conn.parser.feed bytes).1⟩)
  | .eof =>
    some (s.receive c { conn with parser := conn.parser.end.2 } ⟨true, overflowOf conn.parser.end.1⟩)
  | _ => none

/-- The iteration after `drain_frames` returned `Continue` or `ServerClosed`. -/
def finishChunk (s : System) (conn : Connection) (chunk : Chunk) (serverClosed : Bool) : System :=
  match chunk.overflow with
  | some overflow =>
    (s.apply (.fatal (.protocolViolation overflow.message))).close
      (.fatal (.streamProtocol overflow.message none))
  | none =>
    if serverClosed then s.close .serverClosed
    else if s.vars.state.isTerminal then s.close .serverClosed
    else if chunk.eof then (s.apply (.connectionLost .unexpectedEof)).close .unexpectedEof
    else s.goto (.reading conn)

/-- The trigger to run next, or the send once all have run. -/
def nextTrigger (c : Setup) (s : System) (conn : Connection) (chunk : Chunk) (n : Notification)
    (i : Nat) : System :=
  if i < c.request.triggers.length then s.goto (.dispatching conn chunk n i)
  else s.goto (.sending conn chunk n)

/-- `dispatch_triggers` is entered for a notification. -/
def beginDispatch (c : Setup) (s : System) (conn : Connection) (chunk : Chunk) (n : Notification) :
    System :=
  (s.emit (.dispatched n)).nextTrigger c conn chunk n 0

/-- The branch of `drain_frames` for a notification. -/
def receiveNotification (c : Setup) (s : System) (conn : Connection) (chunk : Chunk)
    (n : Notification) : System :=
  let s := (s.apply (.notificationReceived n.sequence)).emit (.received n)
  match conn.gapGuard.observe n.sequence with
  | .error reason => (s.apply (.gapDetected reason)).goto (.reporting (.historyGap reason) .stopRequested)
  | .ok gapGuard =>
    let conn := { conn with gapGuard := gapGuard }
    match s.vars.pendingCommit with
    | some prev =>
      if c.hasStore then s.goto (.putting conn chunk n false)
      else (s.setVars { s.vars with commitCursor := some prev.sequence }).beginDispatch c conn chunk n
    | none => s.beginDispatch c conn chunk n

/-- The body of the loop of `drain_frames` for one message. -/
def receiveMessage (c : Setup) (s : System) (conn : Connection) (chunk : Chunk)
    (m : Finesse.Message) : System :=
  let next := s.goto (.draining conn chunk)
  match c.serde.incoming c.request.eventType m with
  | .established => next.apply .connectionEstablished
  | .notification n => s.receiveNotification c conn chunk n
  | .malformed e => (s.apply (.fatal .malformedEvent)).close (.fatal e)
  | .undecodable => s.close (.fatal .decode)
  | .heartbeat => next.apply .heartbeatReceived
  | .replayCompleted => next.apply .replayCompleted
  | .replayLimit maxAllowed =>
    (s.apply (.gapDetected (.replayLimitReached maxAllowed))).goto
      (.reporting (.historyGap (.replayLimitReached maxAllowed)) .stopRequested)
  | .replayLimitUnnamed =>
    let message := "replay-control: notification_replay_limit_reached missing max_allowed"
    (s.apply (.fatal (.protocolViolation message))).close (.fatal (.streamProtocol message none))
  | .closing reason => (s.apply (.serverClose reason)).finishChunk conn chunk true
  | .closingUnknown reason requestId =>
    let message := "unknown connection-closing reason: " ++ String.ofList reason
    (s.apply (.fatal (.protocolViolation message))).close
      (.fatal (.streamProtocol message requestId))
  | .serverError message requestId =>
    (s.apply (.fatal (.protocolViolation (String.ofList message)))).close
      (.fatal (.streamProtocol (String.ofList message) requestId))
  | .ignored => next

/-- One turn of the loop of `drain_frames`. -/
def stepDraining (c : Setup) (s : System) (conn : Connection) (chunk : Chunk) : System :=
  match conn.parser.nextFrame with
  | (none, parser) => s.finishChunk { conn with parser := parser } chunk false
  | (some (.retry _), parser) => s.goto (.draining { conn with parser := parser } chunk)
  | (some (.message m), parser) => s.receiveMessage c { conn with parser := parser } chunk m

/-- The write of a put takes effect. -/
def land (s : System) (cp : State.Checkpoint) : System :=
  { s with store := putMonotonic s.store cp }.emit (.landed cp)

/-- `store.put` of the previous notification, before the triggers run. -/
def stepPutting (c : Setup) (s : System) (conn : Connection) (chunk : Chunk) (n : Notification)
    (landed : Bool) (prev : PendingCommit) : Input → Option System
  | .lands =>
    if landed then none
    else some ((s.land prev.checkpoint).goto (.putting conn chunk n true))
  | .stored =>
    if landed then
      some (((s.emit (.put prev.checkpoint true)).setVars
        { s.vars with commitCursor := some prev.sequence }).beginDispatch c conn chunk n)
    else none
  | .storeFailed => some ((s.emit (.put prev.checkpoint false)).close (.fatal .stateStore))
  | _ => none

/-- The cancellation probe before one trigger. -/
def stepDispatching (s : System) (conn : Connection) (chunk : Chunk) (n : Notification) (i : Nat) :
    Input → Option System
  | .probe true => some (s.close .cancelled)
  | .probe false => some (s.goto (.attempting conn chunk n i 0))
  | _ => none

/-- One attempt of one trigger returns. -/
def stepAttempting (c : Setup) (s : System) (conn : Connection) (chunk : Chunk) (n : Notification)
    (i attempt : Nat) (result : Except TriggerError Unit) : Option System :=
  c.request.triggers[i]?.map fun trigger =>
    let s := s.emit (.attempted i result)
    match result with
    | .ok () => s.nextTrigger c conn chunk n (i + 1)
    | .error err =>
      if trigger.isTerminalError err || trigger.retries ≤ attempt then
        if trigger.required then
          s.goto (.reporting (.triggerFailed trigger.label err) .stopRequested)
        else s.nextTrigger c conn chunk n (i + 1)
      else s.goto (.backingOff conn chunk n i attempt)

def stepBackingOff (s : System) (conn : Connection) (chunk : Chunk) (n : Notification)
    (i attempt : Nat) : Input → Option System
  | .cancelled => some (s.close .cancelled)
  | .slept => some (s.goto (.attempting conn chunk n i (saturatingSucc32 attempt)))
  | _ => none

/-- The channel takes an item, if it has room. -/
def accept (c : Setup) (s : System) (item : Except ClientError Notification) : Option System :=
  if !s.channel.closed && s.channel.buffer.length < c.capacity then
    some { s with channel := { s.channel with buffer := s.channel.buffer ++ [item] } }
  else none

def stepSending (c : Setup) (s : System) (conn : Connection) (chunk : Chunk) (n : Notification) :
    Input → Option System
  | .cancelled => some (s.close .cancelled)
  | .channelClosed => if s.channel.closed then some (s.close .cancelled) else none
  | .accepted =>
    (s.accept c (.ok n)).map fun s =>
      ((s.emit (.sent n)).setVars (s.vars.delivered n)).goto (.draining conn chunk)
  | _ => none

def after (c : Setup) (s : System) : After → System
  | .return => s.goto .done
  | .break => s.leave c
  | .stopRequested => s.close .cancelled

/-- `send_or_cancel` of an error item. -/
def stepReporting (c : Setup) (s : System) (e : ClientError) (next : After) :
    Input → Option System
  | .cancelled => some (s.after c next)
  | .channelClosed => if s.channel.closed then some (s.after c next) else none
  | .accepted => (s.accept c (.error e)).map fun s => (s.emit (.reported e)).after c next
  | _ => none

/-- What the loop makes of a status other than 200. -/
def classifyStatus (c : Setup) (s : System) (status : Nat) (body : Text) (requestId : Option Text)
    (retryAfter : Option Nat) : System :=
  if status = 401 then
    if c.hasAuth && !s.vars.refreshedForCurrentAttempt then (s.apply .authRejected).goto .top
    else if s.vars.refreshedForCurrentAttempt then
      (s.apply (.authRefreshCompleted false)).fail (.auth "authentication rejected after refresh")
    else
      (s.apply (.fatal (.protocolViolation "401 with no auth provider configured"))).fail
        (.http 401 body requestId)
  else if status = 429 ∨ status = 503 then
    let s := (s.setVars { s.vars with retryAfterOverride := retryAfter }).apply
      (.connectionLost .transportError)
    (s.setVars s.vars.lost).goto .top
  else if 500 ≤ status ∧ status ≤ 599 then
    let s := s.apply (.connectionLost .transportError)
    (s.setVars s.vars.lost).goto .top
  else
    (s.apply (.fatal (.protocolViolation ("server returned " ++ toString status)))).fail
      (.http status body requestId)

/-- The end of the loop body: what the outcome of a connection leads to. -/
def classify (c : Setup) (s : System) : ConnectionOutcome → System
  | .serverClosed =>
    (s.setVars { s.vars with retryCounter := 0, refreshedForCurrentAttempt := false }).goto .top
  | .cancelled => s.leave c
  | .httpStatus status body requestId retryAfter =>
    s.classifyStatus c status body requestId retryAfter
  | .transportError | .openingTimedOut _ =>
    let s := s.apply (.connectionLost .transportError)
    (s.setVars s.vars.lost).goto .top
  | .unexpectedEof | .heartbeatStarved => (s.setVars s.vars.lost).goto .top
  | .fatal e => s.fail e

def stepEnded (c : Setup) (s : System) (outcome : ConnectionOutcome) (short : Bool) : System :=
  let shortSessions := if short then saturatingSucc32 s.vars.shortSessions else 0
  ((s.setVars { s.vars with shortSessions := shortSessions }).emit (.ended outcome short)).classify c
    outcome

/-- The put of `flush_pending`; a failure is only logged. -/
def stepFlushing (s : System) (landed : Bool) (pending : PendingCommit) : Input → Option System
  | .lands =>
    if landed then none else some ((s.land pending.checkpoint).goto (.flushing true))
  | .stored => if landed then some ((s.emit (.put pending.checkpoint true)).goto .done) else none
  | .storeFailed => some ((s.emit (.put pending.checkpoint false)).goto .done)
  | _ => none

def startupTimedOut : ClientError := .streamProtocol "listener startup timeout exceeded" none

/-- The error item of `with_startup_budget`, which no cancellation races. -/
def stepStartupExpired (c : Setup) (s : System) : Input → Option System
  | .accepted =>
    (s.accept c (.error startupTimedOut)).map fun s => (s.emit (.reported startupTimedOut)).goto .done
  | .channelClosed => if s.channel.closed then some (s.goto .done) else none
  | _ => none

/-- The supervisor's own step, by the stage it is in. -/
def stepStage (c : Setup) (s : System) (input : Input) : Option System :=
  match s.stage with
  | .resolving => s.stepResolving c input
  | .top =>
    match input with
    | .jitter n => some (s.stepTop c n)
    | _ => none
  | .sleeping => s.stepSleeping c input
  | .refreshing => s.stepRefreshing c input
  | .authorizing a => s.stepAuthorizing a input
  | .opening a => s.stepOpening c a input
  | .readingBody status requestId retryAfter => s.stepReadingBody status requestId retryAfter input
  | .reading conn => s.stepReading c conn input
  | .draining conn chunk =>
    match input with
    | .proceed => some (s.stepDraining c conn chunk)
    | _ => none
  | .putting conn chunk n landed =>
    s.vars.pendingCommit.bind fun prev => s.stepPutting c conn chunk n landed prev input
  | .dispatching conn chunk n i => s.stepDispatching conn chunk n i input
  | .attempting conn chunk n i attempt =>
    match input with
    | .attempt result => s.stepAttempting c conn chunk n i attempt result
    | _ => none
  | .backingOff conn chunk n i attempt => s.stepBackingOff conn chunk n i attempt input
  | .sending conn chunk n => s.stepSending c conn chunk n input
  | .ended outcome =>
    match input with
    | .elapsed short => some (s.stepEnded c outcome short)
    | _ => none
  | .reporting e next => s.stepReporting c e next input
  | .flushing landed => s.vars.pendingCommit.bind fun pending => s.stepFlushing landed pending input
  | .startupExpired => s.stepStartupExpired c input
  | .done => none

/-- Whether the startup budget may run out here: it races the run only where the run waits. -/
def starting (c : Setup) (s : System) : Bool :=
  c.request.hasStartupTimeout && !s.vars.ready && s.stage.awaits

/-- One step of the supervisor, of the startup budget around it, or of the consumer. -/
def step (c : Setup) : Lib.Machine System Input := fun s input =>
  match input with
  | .startupExpires => if s.starting c then some (s.goto .startupExpired) else none
  | .pull =>
    match s.channel.buffer with
    | [] => none
    | _ :: buffer => some { s with channel := { s.channel with buffer := buffer } }
  | .hangUp => some { s with channel := { s.channel with closed := true } }
  | input => s.stepStage c input

/-- A run begins with what the store holds. -/
def start (store : Option State.Checkpoint) : System :=
  ⟨.resolving, .initial, store, ⟨[], false⟩, []⟩

end System
end Aviso.Watch
