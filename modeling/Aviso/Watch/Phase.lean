import Aviso.Json

namespace Aviso.Watch

inductive ResumeStart where
  | afterSequence (n : Nat)
  | date (s : Text)
  deriving DecidableEq, Repr

/-- The sequence a start position names, if it names one. -/
def ResumeStart.sequence : ResumeStart → Option Nat
  | .afterSequence n => some n
  | .date _ => none

inductive ReplayEnd where
  | sequence (n : Nat)
  | date (s : Text)
  deriving DecidableEq, Repr

inductive GapReason where
  | replayLimitReached (maxAllowed : Nat)
  | sequenceJump (expected observed : Nat)
  deriving DecidableEq, Repr

inductive FatalKind where
  | malformedEvent
  | authenticationRejectedAfterRefresh
  | transportRetriesExhausted
  | protocolViolation (message : String)
  deriving DecidableEq, Repr

inductive CloseReason where
  | endOfStream
  | fatal (kind : FatalKind)
  | userRequested
  deriving DecidableEq, Repr

inductive ReplayPhase where
  | replaying (start : ResumeStart) (replayCompleted : Bool)
  | live
  | gapDetected (reason : GapReason)
  | closed (reason : CloseReason)
  deriving DecidableEq, Repr

/-- A wait is in nanoseconds. -/
inductive ConnectionStatus where
  | connected
  | reconnecting
  | backoffWait (duration : Nat)
  | refreshingAuth
  deriving DecidableEq, Repr

inductive ConnectionLossReason where
  | transportError
  | unexpectedEof
  deriving DecidableEq, Repr

inductive ServerCloseReason where
  | maxDurationReached
  | serverShutdown
  | endOfStream
  deriving DecidableEq, Repr

inductive WatchEvent where
  | connectionEstablished
  | connectionLost (reason : ConnectionLossReason)
  | serverClose (reason : ServerCloseReason)
  | backoffStarted (duration : Nat)
  | backoffElapsed
  | authRejected
  | authRefreshCompleted (success : Bool)
  | heartbeatReceived
  | heartbeatStarvation
  | notificationReceived (sequence : Nat)
  | replayCompleted
  | gapDetected (reason : GapReason)
  | fatal (kind : FatalKind)
  | stop
  deriving DecidableEq, Repr

inductive ReconnectPolicy where
  | immediate
  | shortBackoff
  | exponentialBackoff
  deriving DecidableEq, Repr

inductive WatchOutcome where
  | «continue»
  | reconnect (policy : ReconnectPolicy)
  | refreshAuth
  | gap (reason : GapReason)
  | stop (reason : CloseReason)
  deriving DecidableEq, Repr

inductive WatchMode where
  | watch
  | replayOnly
  deriving DecidableEq, Repr

end Aviso.Watch
