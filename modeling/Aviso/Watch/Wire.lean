import Aviso.Watch.Phase
import Aviso.Finesse.Parser

namespace Aviso.Watch

inductive TriggerError where
  | io
  | encode
  | template
  | timeout
  | command
  | webhook (status : Option Nat)
  | webhookBuild
  deriving DecidableEq, Repr

/-- Why the id of a CloudEvent is refused. -/
inductive MalformedEvent where
  | missingSeparator (id : Text)
  | emptyEventType (id : Text)
  | sequenceNotU64 (id : Text)
  | eventTypeMismatch (eventType expected : Text)
  deriving DecidableEq, Repr

inductive ClientError where
  | config (message : String)
  | auth (message : String)
  | transport
  | decode
  | http (status : Nat) (body : Text) (requestId : Option Text)
  | malformedEvent (reason : MalformedEvent)
  | streamProtocol (message : String) (requestId : Option Text)
  | historyGap (reason : GapReason)
  | triggerFailed (kind : String) (source : TriggerError)
  | stateStore
  deriving DecidableEq, Repr

/-- A delivered notification; `cloudevent` is the envelope as it was received. -/
structure Notification where
  eventType : Text
  sequence : Nat
  identifier : List (Text × Json)
  payload : Json
  cloudevent : Option Json
  deriving Repr

/-- `rsplit_once`: the parts around the last occurrence. -/
def rsplitOnce (sep : Char) (s : Text) : Option (Text × Text) :=
  match s.reverse.idxOf? sep with
  | some i => some ((s.reverse.drop (i + 1)).reverse, (s.reverse.take i).reverse)
  | none => none

def parseCloudeventId (id : Text) : Except ClientError (Text × Nat) :=
  match rsplitOnce '@' id with
  | none => .error (.malformedEvent (.missingSeparator id))
  | some (eventType, sequence) =>
    if eventType.isEmpty then .error (.malformedEvent (.emptyEventType id))
    else
      match parseU64 sequence with
      | none => .error (.malformedEvent (.sequenceNotU64 id))
      | some n => .ok (eventType, n)

def checkEventType (parsed : Text × Nat) (expected : Text) : Except ClientError (Text × Nat) :=
  if parsed.1 = expected then .ok parsed
  else .error (.malformedEvent (.eventTypeMismatch parsed.1 expected))

/-- The body of a watch or replay request. The sequences are written in
decimal on the wire. -/
structure WireWatchRequest where
  eventType : Text
  identifier : List (Text × Json)
  fromId : Option Nat
  fromDate : Option Text
  toId : Option Nat
  toDate : Option Text
  deriving Repr

/-- `WireWatchRequest::from_parts`. -/
def WireWatchRequest.fromParts (eventType : Text) (filter : List (Text × Json))
    (start : Option ResumeStart) (until_ : Option ReplayEnd) :
    Except ClientError WireWatchRequest :=
  let body (fromId : Option Nat) (fromDate : Option Text) : WireWatchRequest :=
    { eventType := eventType, identifier := filter, fromId := fromId, fromDate := fromDate,
      toId := match until_ with
        | some (.sequence n) => some n
        | _ => none
      toDate := match until_ with
        | some (.date s) => some s
        | _ => none }
  match start with
  | none => .ok (body none none)
  | some (.date s) => .ok (body none (some s))
  | some (.afterSequence n) =>
    match checkedSucc n with
    | some next => .ok (body (some next) none)
    | none => .error (.config (s!"from_id overflow: AfterSequence({n}) cannot advance past u64::MAX"))

structure WireCloudEvent where
  id : Text
  identifier : List (Text × Json)
  payload : Json
  deriving Repr

structure WireConnectionClosing where
  reason : Text
  requestId : Option Text
  deriving DecidableEq, Repr

structure WireReplayControl where
  tag : Text
  maxAllowed : Option Nat
  deriving DecidableEq, Repr

structure WireErrorEvent where
  error : Option Text
  message : Option Text
  requestId : Option Text
  deriving DecidableEq, Repr

/-- What the client uses of the JSON library: its parser, and the decoders it
derives for the wire types. -/
structure Serde where
  fromStr : Text → Option Json
  connectionEstablished : Json → Bool
  cloudEvent : Json → Option WireCloudEvent
  connectionClosing : Text → Option WireConnectionClosing
  replayControl : Text → Option WireReplayControl
  errorEvent : Text → Option WireErrorEvent

/-- What one message of the stream means to `drain_frames`. -/
inductive Incoming where
  | established
  | notification (n : Notification)
  | malformed (e : ClientError)
  /-- A payload the decoders refuse. -/
  | undecodable
  | heartbeat
  | replayCompleted
  | replayLimit (maxAllowed : Nat)
  | replayLimitUnnamed
  | closing (reason : ServerCloseReason)
  | closingUnknown (reason : Text) (requestId : Option Text)
  | serverError (message : Text) (requestId : Option Text)
  | ignored
  deriving Repr

namespace Serde

def incomingData (serde : Serde) (expected : Text) (data : Text) : Incoming :=
  match serde.fromStr data with
  | none => .undecodable
  | some raw =>
    if (raw.get "type".toList).bind Json.asStr = some "connection_established".toList then
      if serde.connectionEstablished raw then .established else .undecodable
    else
      match serde.cloudEvent raw with
      | none => .undecodable
      | some wire =>
        match parseCloudeventId wire.id >>= fun parsed => checkEventType parsed expected with
        | .error e => .malformed e
        | .ok (eventType, sequence) =>
          .notification ⟨eventType, sequence, wire.identifier, wire.payload, some raw⟩

def incomingControl (serde : Serde) (data : Text) : Incoming :=
  match serde.replayControl data with
  | none => .undecodable
  | some wire =>
    if wire.tag = "replay_completed".toList then .replayCompleted
    else if wire.tag = "notification_replay_limit_reached".toList then
      match wire.maxAllowed with
      | some maxAllowed => .replayLimit maxAllowed
      | none => .replayLimitUnnamed
    else .ignored

def incomingClosing (serde : Serde) (data : Text) : Incoming :=
  match serde.connectionClosing data with
  | none => .undecodable
  | some wire =>
    if wire.reason = "server_shutdown".toList then .closing .serverShutdown
    else if wire.reason = "max_duration_reached".toList then .closing .maxDurationReached
    else if wire.reason = "end_of_stream".toList then .closing .endOfStream
    else .closingUnknown wire.reason wire.requestId

def incomingError (serde : Serde) (data : Text) : Incoming :=
  match serde.errorEvent data with
  | none => .undecodable
  | some wire =>
    .serverError ((wire.message.or wire.error).getD "server error event".toList) wire.requestId

def incoming (serde : Serde) (expected : Text) (m : Finesse.Message) : Incoming :=
  if m.event = "live-notification".toList ∨ m.event = "replay".toList then
    serde.incomingData expected m.data
  else if m.event = "heartbeat".toList then .heartbeat
  else if m.event = "replay-control".toList then serde.incomingControl m.data
  else if m.event = "connection-closing".toList then serde.incomingClosing m.data
  else if m.event = "error".toList then serde.incomingError m.data
  else .ignored

variable {serde : Serde} {expected : Text}

theorem parseCloudeventId_le {id : Text} (h : parseCloudeventId id = .ok (eventType, n)) :
    n ≤ u64Max := by
  unfold parseCloudeventId at h
  split at h
  · cases h
  · split at h
    · cases h
    · split at h
      · cases h
      · cases h
        exact parseU64_le ‹_›

theorem checked_le {id : Text}
    (h : (parseCloudeventId id >>= fun parsed => checkEventType parsed expected) =
      .ok (eventType, n)) : n ≤ u64Max := by
  cases hid : parseCloudeventId id with
  | error e => simp [hid, bind, Except.bind] at h
  | ok parsed =>
    simp only [hid, bind, Except.bind, checkEventType] at h
    split at h
    · cases h
      exact parseCloudeventId_le hid
    · cases h

theorem incomingData_le (h : serde.incomingData expected data = .notification n) :
    n.sequence ≤ u64Max := by
  unfold incomingData at h
  repeat' split at h
  all_goals cases h
  exact checked_le ‹_›

/-- A notification of the stream has a sequence of 64 bits. -/
theorem incoming_le (h : serde.incoming expected m = .notification n) : n.sequence ≤ u64Max := by
  unfold incoming incomingControl incomingClosing incomingError at h
  split at h
  · exact incomingData_le h
  · repeat' split at h
    all_goals cases h

end Serde
end Aviso.Watch
