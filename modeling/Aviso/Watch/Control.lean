import Aviso.Watch.Supervisor
import Aviso.Lib.History

namespace Aviso.Watch

/-- What the awaits of a run tell it, as far as its end depends on it. -/
inductive Sign where
  /-- A message of the stream is handled. -/
  | heard (m : Incoming)
  /-- A cancellation is observed, or the consumer's end of the channel is gone. -/
  | cancelled

namespace Incoming

/-- The event a message alone applies to the reducer, unless it ends the connection at once. -/
def event : Incoming → Option WatchEvent
  | .established => some .connectionEstablished
  | .notification n => some (.notificationReceived n.sequence)
  | .heartbeat => some .heartbeatReceived
  | .replayCompleted => some .replayCompleted
  | .closing reason => some (.serverClose reason)
  | .malformed _ | .undecodable | .replayLimit _ | .replayLimitUnnamed | .closingUnknown _ _
  | .serverError _ _ | .ignored => none

end Incoming

/-- The reducer a watch starts with, if its mode allows the start position. -/
def WatchState.from : WatchMode → Option ResumeStart → Option WatchState
  | .watch, cursor => some (.watch cursor)
  | .replayOnly, some cursor => some (.replayOnly cursor)
  | .replayOnly, none => none

namespace Supervisor

@[simp] theorem transition_ready (v : Supervisor) (e : WatchEvent) : (v.transition e).ready = v.ready := rfl
@[simp] theorem transition_resolvedEnd (v : Supervisor) (e : WatchEvent) :
    (v.transition e).resolvedEnd = v.resolvedEnd := rfl
@[simp] theorem transition_refreshedForCurrentAttempt (v : Supervisor) (e : WatchEvent) :
    (v.transition e).refreshedForCurrentAttempt = v.refreshedForCurrentAttempt := rfl

def hear (v : Supervisor) (m : Incoming) : Supervisor := m.event.elim v v.transition

/-- The variables once a connection is confirmed. -/
def confirmed (c : Setup) (v : Supervisor) (opening : Opening) : Supervisor :=
  { v with
    resolvedEnd :=
      if v.resolvedEnd.isNone && c.request.until_.isSome then opening.endSequence.or v.resolvedEnd
      else v.resolvedEnd
    retryCounter := 0
    ready := true }.transition .connectionEstablished

@[simp] theorem hear_pendingCommit (v : Supervisor) (m : Incoming) :
    (v.hear m).pendingCommit = v.pendingCommit := by
  cases m <;> rfl

@[simp] theorem hear_commitCursor (v : Supervisor) (m : Incoming) :
    (v.hear m).commitCursor = v.commitCursor := by
  cases m <;> rfl

@[simp] theorem hear_initialCursor (v : Supervisor) (m : Incoming) :
    (v.hear m).initialCursor = v.initialCursor := by
  cases m <;> rfl

@[simp] theorem hear_ready (v : Supervisor) (m : Incoming) : (v.hear m).ready = v.ready := by
  cases m <;> rfl

@[simp] theorem hear_resolvedEnd (v : Supervisor) (m : Incoming) :
    (v.hear m).resolvedEnd = v.resolvedEnd := by
  cases m <;> rfl

@[simp] theorem hear_refreshedForCurrentAttempt (v : Supervisor) (m : Incoming) :
    (v.hear m).refreshedForCurrentAttempt = v.refreshedForCurrentAttempt := by
  cases m <;> rfl

/-- Whether everything up to the end of the replay is delivered. -/
def reached (c : Setup) (v : Supervisor) : Bool :=
  replayReached (v.wireUntil c.request) v.pendingCommit v.commitCursor

/-- The variables once the wait before a reconnect is settled. -/
def settled (v : Supervisor) : Supervisor :=
  { v with lastReconnectPolicy := none, retryAfterOverride := none }

/-- The wait before a reconnect. -/
def delay (v : Supervisor) (jitter : Nat) (policy : ReconnectPolicy) : Nat :=
  v.retryAfterOverride.getD
    (computeBackoff jitter (System.backoffOf v policy).1 (System.backoffOf v policy).2)

end Supervisor

namespace Control

/-- How far the reconnect loop has got. -/
inductive Phase where
  | starting
  | top
  /-- The checks of the loop are passed, and the wait is over. -/
  | checked
  | resting
  | refreshing
  | connecting
  | asking (body : WireWatchRequest)
  /-- A request is out and its stream not confirmed. -/
  | opening
  | streaming
  | ended (outcome : ConnectionOutcome)
  | reporting (e : ClientError)
  /-- Nothing is left but the exit flush. -/
  | leaving
  | flushing (landed : Bool)
  | done

/-- Whether an await of the phase races the cancellation sources. -/
def Phase.waits : Phase → Bool
  | .starting | .resting | .refreshing | .asking _ | .opening | .streaming | .reporting _ => true
  | .top | .checked | .connecting | .ended _ | .leaving | .flushing _ | .done => false

/-- A connection is being made or made. -/
def Phase.connects : Phase → Bool
  | .connecting | .asking _ | .opening | .streaming => true
  | _ => false

/-- The run is over but for the exit flush. -/
def Phase.exits : Phase → Bool
  | .leaving | .flushing _ | .done => true
  | _ => false

/-- A watch, seen as its reconnect loop. -/
structure State where
  phase : Phase
  vars : Supervisor
  seen : List Sign
  trace : List Effect

namespace State

def enter (σ : State) (phase : Phase) : State := { σ with phase := phase }

def set (σ : State) (vars : Supervisor) : State := { σ with vars := vars }

def emit (σ : State) (e : Effect) : State := { σ with trace := σ.trace ++ [e] }

def see (σ : State) (sign : Sign) : State := { σ with seen := σ.seen ++ [sign] }

def initial : State := ⟨.starting, .initial, [], []⟩

variable (σ : State)

@[simp] theorem enter_phase (phase : Phase) : (σ.enter phase).phase = phase := rfl
@[simp] theorem enter_vars (phase : Phase) : (σ.enter phase).vars = σ.vars := rfl
@[simp] theorem enter_seen (phase : Phase) : (σ.enter phase).seen = σ.seen := rfl
@[simp] theorem enter_trace (phase : Phase) : (σ.enter phase).trace = σ.trace := rfl
@[simp] theorem set_phase (v : Supervisor) : (σ.set v).phase = σ.phase := rfl
@[simp] theorem set_vars (v : Supervisor) : (σ.set v).vars = v := rfl
@[simp] theorem set_seen (v : Supervisor) : (σ.set v).seen = σ.seen := rfl
@[simp] theorem set_trace (v : Supervisor) : (σ.set v).trace = σ.trace := rfl
@[simp] theorem emit_phase (e : Effect) : (σ.emit e).phase = σ.phase := rfl
@[simp] theorem emit_vars (e : Effect) : (σ.emit e).vars = σ.vars := rfl
@[simp] theorem emit_seen (e : Effect) : (σ.emit e).seen = σ.seen := rfl
@[simp] theorem emit_trace (e : Effect) : (σ.emit e).trace = σ.trace ++ [e] := rfl
@[simp] theorem see_phase (sign : Sign) : (σ.see sign).phase = σ.phase := rfl
@[simp] theorem see_vars (sign : Sign) : (σ.see sign).vars = σ.vars := rfl
@[simp] theorem see_seen (sign : Sign) : (σ.see sign).seen = σ.seen ++ [sign] := rfl
@[simp] theorem see_trace (sign : Sign) : (σ.see sign).trace = σ.trace := rfl

end State

/-- The outcomes that leave the reducer as it was. -/
def Misses : ConnectionOutcome → Prop
  | .transportError | .openingTimedOut _ | .fatal _ => True
  | .serverClosed | .httpStatus _ _ _ _ | .unexpectedEof | .heartbeatStarved | .cancelled => False

/-- The outcomes that come with an event for the reducer. -/
inductive Drops : WatchEvent → ConnectionOutcome → Prop where
  | starved : Drops .heartbeatStarvation .heartbeatStarved
  | eof : Drops (.connectionLost .unexpectedEof) .unexpectedEof
  | fatal (kind : FatalKind) (e : ClientError) : Drops (.fatal kind) (.fatal e)

/-- The effects of a notification on its way, before it is sent. -/
def Handles : Effect → Prop
  | .received _ | .landed _ | .put _ _ | .dispatched _ | .attempted _ _ => True
  | .fetched _ | .refreshCalled | .backedOff _ | .requested _ | .confirmed _ | .sent _ | .reported _
  | .ended _ _ => False

/-- What the loop makes of the outcome of a connection. -/
inductive Judged (c : Setup) (v : Supervisor) : ConnectionOutcome → Supervisor → Phase → Prop where
  | again : Judged c v .serverClosed
      { v with retryCounter := 0, refreshedForCurrentAttempt := false } .top
  | missed : Judged c v .transportError (v.transition (.connectionLost .transportError)).lost .top
  | late (e : ClientError) :
      Judged c v (.openingTimedOut e) (v.transition (.connectionLost .transportError)).lost .top
  | eof : Judged c v .unexpectedEof v.lost .top
  | starved : Judged c v .heartbeatStarved v.lost .top
  | busy : status = 429 ∨ status = 503 →
      Judged c v (.httpStatus status body requestId retryAfter)
        ({ v with retryAfterOverride := retryAfter }.transition (.connectionLost .transportError)).lost
        .top
  | failed : 500 ≤ status → status ≤ 599 → status ≠ 503 →
      Judged c v (.httpStatus status body requestId retryAfter)
        (v.transition (.connectionLost .transportError)).lost .top
  | rejected : c.hasAuth = true → v.refreshedForCurrentAttempt = false →
      Judged c v (.httpStatus 401 body requestId retryAfter) (v.transition .authRejected) .top
  | refused : v.refreshedForCurrentAttempt = true →
      Judged c v (.httpStatus 401 body requestId retryAfter)
        (v.transition (.authRefreshCompleted false))
        (.reporting (.auth "authentication rejected after refresh"))
  | denied (kind : FatalKind) :
      (status = 401 → c.hasAuth = false ∧ v.refreshedForCurrentAttempt = false) →
      Judged c v (.httpStatus status body requestId retryAfter) (v.transition (.fatal kind))
        (.reporting (.http status body requestId))
  | fatal (e : ClientError) : Judged c v (.fatal e) v (.reporting e)

/-- The reconnect loop of a watch: what may follow what, whatever the server, the
credentials, the triggers, the store and the consumer do. -/
inductive Step (c : Setup) : State → State → Prop where
  | fetch (held : Option State.Checkpoint) : σ.phase = .starting → Step c σ (σ.emit (.fetched held))
  | resolve (cursor : Option ResumeStart) (state : WatchState) :
      σ.phase = .starting → WatchState.from c.request.mode cursor = some state →
      Step c σ ((σ.set (.start state cursor)).enter .top)
  | refuse (e : ClientError) : σ.phase = .starting → Step c σ (σ.enter (.reporting e))
  | finish : σ.phase = .top → σ.vars.state.isTerminal = true ∨ σ.vars.reached c = true →
      Step c σ (σ.enter .leaving)
  | skip : σ.phase = .top → σ.vars.state.isTerminal = false → σ.vars.reached c = false →
      σ.vars.lastReconnectPolicy = none → Step c σ (σ.enter .checked)
  | hurry (jitter : Nat) (policy : ReconnectPolicy) :
      σ.phase = .top → σ.vars.state.isTerminal = false → σ.vars.reached c = false →
      σ.vars.lastReconnectPolicy = some policy → σ.vars.delay jitter policy = 0 →
      Step c σ (((σ.set σ.vars.settled).emit (.backedOff 0)).enter .checked)
  | rest (jitter : Nat) (policy : ReconnectPolicy) :
      σ.phase = .top → σ.vars.state.isTerminal = false → σ.vars.reached c = false →
      σ.vars.lastReconnectPolicy = some policy → σ.vars.delay jitter policy ≠ 0 →
      Step c σ (((σ.set (σ.vars.settled.transition (.backoffStarted (σ.vars.delay jitter policy)))).emit
        (.backedOff (σ.vars.delay jitter policy))).enter .resting)
  | wake : σ.phase = .resting →
      Step c σ ((σ.set (σ.vars.transition .backoffElapsed)).enter .checked)
  | refresh : σ.phase = .checked → σ.vars.state.connectionStatus = .refreshingAuth →
      c.hasAuth = true → Step c σ ((σ.emit .refreshCalled).enter .refreshing)
  | unprovided (e : ClientError) : σ.phase = .checked →
      σ.vars.state.connectionStatus = .refreshingAuth → c.hasAuth = false →
      Step c σ ((σ.set (σ.vars.transition (.authRefreshCompleted false))).enter (.reporting e))
  | proceed : σ.phase = .checked → σ.vars.state.connectionStatus ≠ .refreshingAuth →
      Step c σ (σ.enter .connecting)
  | refreshed : σ.phase = .refreshing →
      Step c σ ((σ.set ({ σ.vars with refreshedForCurrentAttempt := true }.transition
        (.authRefreshCompleted true))).enter .connecting)
  | refreshFailed (e : ClientError) : σ.phase = .refreshing →
      Step c σ ((σ.set (σ.vars.transition (.authRefreshCompleted false))).enter (.reporting e))
  | ask (body : WireWatchRequest) : σ.phase = .connecting →
      WireWatchRequest.fromParts c.request.eventType c.request.filter σ.vars.wireFrom
        (σ.vars.wireUntil c.request) = .ok body →
      Step c σ (σ.enter (.asking body))
  | request : σ.phase = .asking body → Step c σ ((σ.emit (.requested body)).enter .opening)
  | miss (outcome : ConnectionOutcome) : σ.phase.connects = true → Misses outcome →
      Step c σ (σ.enter (.ended outcome))
  | answer (status : Nat) (body : Text) (requestId : Option Text) (retryAfter : Option Nat) :
      σ.phase = .opening → Step c σ (σ.enter (.ended (.httpStatus status body requestId retryAfter)))
  | drop : σ.phase = .opening ∨ σ.phase = .streaming → Drops event outcome →
      Step c σ ((σ.set (σ.vars.transition event)).enter (.ended outcome))
  | confirm (opening : Opening) : σ.phase = .opening →
      Step c σ (((σ.set (σ.vars.confirmed c opening)).emit (.confirmed opening)).enter .streaming)
  | hear (m : Incoming) : σ.phase = .streaming → Step c σ ((σ.set (σ.vars.hear m)).see (.heard m))
  | handle (e : Effect) : σ.phase = .streaming → Handles e → Step c σ (σ.emit e)
  | commit (p : PendingCommit) : σ.phase = .streaming → σ.vars.pendingCommit = some p →
      Step c σ (σ.set { σ.vars with commitCursor := some p.sequence })
  | deliver (n : Notification) : σ.phase = .streaming →
      Step c σ ((σ.emit (.sent n)).set (σ.vars.delivered n))
  | close : σ.phase = .opening ∨ σ.phase = .streaming → Step c σ (σ.enter (.ended .serverClosed))
  | gap (reason : GapReason) : σ.phase = .streaming →
      Step c σ ((σ.set (σ.vars.transition (.gapDetected reason))).enter
        (.reporting (.historyGap reason)))
  | fail (e : ClientError) : σ.phase = .streaming → Step c σ (σ.enter (.reporting e))
  | judge (short : Bool) (shortSessions : Nat) : σ.phase = .ended outcome →
      Judged c { σ.vars with shortSessions := shortSessions } outcome v phase →
      Step c σ (((σ.emit (.ended outcome short)).set v).enter phase)
  | cancel : σ.phase.waits = true → Step c σ ((σ.see .cancelled).enter .leaving)
  | stop : σ.phase = .opening ∨ σ.phase = .streaming →
      Step c σ (((σ.set (σ.vars.transition .stop)).see .cancelled).enter .leaving)
  | expire : c.request.hasStartupTimeout = true → σ.vars.ready = false →
      (σ.phase.waits = true ∧ ∀ e, σ.phase ≠ .reporting e) ∨ (∃ landed, σ.phase = .flushing landed) →
      Step c σ (σ.enter (.reporting System.startupTimedOut))
  | report : σ.phase = .reporting e → Step c σ ((σ.emit (.reported e)).enter .leaving)
  | part (short : Bool) (shortSessions : Nat) : σ.phase = .leaving →
      Step c σ ((σ.emit (.ended .cancelled short)).set { σ.vars with shortSessions := shortSessions })
  | flush : σ.phase = .leaving → σ.vars.pendingCommit.isSome = true →
      Step c σ (σ.enter (.flushing false))
  | quit : σ.phase = .leaving → Step c σ (σ.enter .done)
  | land (cp : State.Checkpoint) : σ.phase = .flushing false →
      Step c σ ((σ.emit (.landed cp)).enter (.flushing true))
  | flushed (cp : State.Checkpoint) (ok : Bool) : σ.phase = .flushing landed →
      Step c σ ((σ.emit (.put cp ok)).enter .done)

/-- Steps in any number. -/
abbrev Steps (c : Setup) : State → State → Prop := Relation.ReflTransGen (Step c)

end Control
end Aviso.Watch
