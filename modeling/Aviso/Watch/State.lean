import Aviso.Watch.Phase

namespace Aviso.Watch

/-- The reducer of a watch session. -/
structure WatchState where
  replayPhase : ReplayPhase
  connectionStatus : ConnectionStatus
  mode : WatchMode
  deriving DecidableEq, Repr

namespace WatchState

def watch (start : Option ResumeStart) : WatchState :=
  ⟨match start with
    | some start => .replaying start false
    | none => .live, .reconnecting, .watch⟩

def replayOnly (start : ResumeStart) : WatchState :=
  ⟨.replaying start false, .reconnecting, .replayOnly⟩

def isTerminal (s : WatchState) : Bool :=
  match s.replayPhase with
  | .closed _ => true
  | _ => false

def closeWith (s : WatchState) (reason : CloseReason) : WatchOutcome × WatchState :=
  (.stop reason, { s with replayPhase := .closed reason })

def enterGap (s : WatchState) (reason : GapReason) : WatchOutcome × WatchState :=
  (.gap reason, { s with replayPhase := .gapDetected reason })

def reconnect (s : WatchState) (policy : ReconnectPolicy) : WatchOutcome × WatchState :=
  (.reconnect policy, { s with connectionStatus := .reconnecting })

def handleEndOfStream (s : WatchState) : WatchOutcome × WatchState :=
  match s.mode, s.replayPhase with
  | .replayOnly, .replaying _ true => s.closeWith .endOfStream
  | _, _ => s.reconnect .immediate

def handleServerClose (s : WatchState) : ServerCloseReason → WatchOutcome × WatchState
  | .maxDurationReached => s.reconnect .immediate
  | .serverShutdown => s.reconnect .shortBackoff
  | .endOfStream => s.handleEndOfStream

def handleReplayCompleted (s : WatchState) : WatchOutcome × WatchState :=
  match s.mode, s.replayPhase with
  | .watch, .replaying _ _ => (.continue, { s with replayPhase := .live })
  | .replayOnly, .replaying start false =>
    (.continue, { s with replayPhase := .replaying start true })
  | _, _ => (.continue, s)

def transition (s : WatchState) (event : WatchEvent) : WatchOutcome × WatchState :=
  if s.isTerminal then (.continue, s)
  else
    match event with
    | .connectionEstablished => (.continue, { s with connectionStatus := .connected })
    | .connectionLost _ => s.reconnect .exponentialBackoff
    | .heartbeatStarvation => s.reconnect .exponentialBackoff
    | .serverClose reason => s.handleServerClose reason
    | .backoffStarted duration => (.continue, { s with connectionStatus := .backoffWait duration })
    | .backoffElapsed =>
      match s.connectionStatus with
      | .backoffWait _ => (.continue, { s with connectionStatus := .reconnecting })
      | _ => (.continue, s)
    | .authRejected => (.refreshAuth, { s with connectionStatus := .refreshingAuth })
    | .authRefreshCompleted true => (.continue, { s with connectionStatus := .reconnecting })
    | .authRefreshCompleted false =>
      s.closeWith (.fatal .authenticationRejectedAfterRefresh)
    | .heartbeatReceived => (.continue, s)
    | .notificationReceived _ => (.continue, s)
    | .replayCompleted => s.handleReplayCompleted
    | .gapDetected reason => s.enterGap reason
    | .fatal kind => s.closeWith (.fatal kind)
    | .stop => s.closeWith .userRequested

end WatchState
end Aviso.Watch
