import Aviso.Watch.Wire

namespace Aviso.Watch

/-- The sequence-jump detector of one connection. -/
structure GapGuard where
  expected : Option Nat
  relaxed : Bool
  deriving DecidableEq, Repr

namespace GapGuard

def new (start : Option ResumeStart) (relaxed : Bool) : GapGuard :=
  ⟨match start with
    | some (.afterSequence n) => checkedSucc n
    | _ => none, relaxed⟩

def startingFrom (start : Option ResumeStart) : GapGuard := new start false

def relaxedStartingFrom (start : Option ResumeStart) : GapGuard := new start true

def observe (g : GapGuard) (observed : Nat) : Except GapReason GapGuard :=
  match g.expected with
  | none => .ok { g with expected := checkedSucc observed }
  | some expected =>
    if observed = expected then .ok { g with expected := checkedSucc observed }
    else if observed > expected then
      if g.relaxed then .ok { g with expected := checkedSucc observed }
      else .error (.sequenceJump expected observed)
    else .ok g

end GapGuard

/-- What the opening control event says about the stream. -/
structure Opening where
  endSequence : Option Nat
  deriving DecidableEq, Repr

namespace Opening

def protocol (message : String) : ClientError :=
  .streamProtocol (message ++ "; check base_url points to an Aviso server") none

def noResponse : ClientError :=
  .streamProtocol ("no response from the server within 10s; it may be slow or overloaded, or a " ++
    "proxy may be limiting concurrent requests per connection") none

/-- The `end_sequence` of an opening event: absent, null or a sequence. -/
def endOf (value : Json) : Except ClientError (Option Nat) :=
  match value.get "end_sequence".toList with
  | none => .ok none
  | some .null => .ok none
  | some e =>
    match e.asU64 with
    | some n => .ok (some n)
    | none => .error (protocol "invalid end_sequence in Aviso opening control event")

/-- What one message means before the stream is confirmed: the opening, an
error, or nothing. -/
def examine (serde : Serde) (historical : Bool) (m : Finesse.Message) :
    Except ClientError (Option Opening) :=
  let expected := if historical then "replay_started".toList else "connection_established".toList
  let expectedEvent := if historical then "replay-control".toList else "live-notification".toList
  if m.event = "live-notification".toList ∨ m.event = "replay".toList ∨
      m.event = "replay-control".toList then
    match serde.fromStr m.data with
    | none => .error (protocol "invalid Aviso opening control event")
    | some value =>
      if m.event = expectedEvent ∧ (value.get "type".toList).bind Json.asStr = some expected then
        (endOf value).map fun endSequence => some ⟨endSequence⟩
      else .error (protocol "unexpected event before required Aviso opening control")
  else if m.event = "error".toList then
    match serde.errorEvent m.data with
    | none => .error (protocol "invalid Aviso opening error event")
    | some wire =>
      .error (.streamProtocol (String.ofList ((wire.message.or wire.error).getD
        "server rejected stream before opening confirmation".toList)) wire.requestId)
  else if m.event = "connection-closing".toList then
    .error (protocol "stream closed before opening confirmation")
  else .ok none

/-- `opening::confirmed`: the loop over the frames ready, and those it leaves. -/
def confirmed (serde : Serde) (historical : Bool) :
    List Finesse.Frame → Except ClientError (Option Opening) × List Finesse.Frame
  | [] => (.ok none, [])
  | .retry _ :: rest => confirmed serde historical rest
  | .message m :: rest =>
    match examine serde historical m with
    | .error e => (.error e, rest)
    | .ok (some opening) => (.ok (some opening), rest)
    | .ok none => confirmed serde historical rest

end Opening
end Aviso.Watch
