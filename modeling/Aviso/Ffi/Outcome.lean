import Aviso.Watch.Wire

namespace Aviso.Ffi

open Watch (ClientError TriggerError)

inductive AvisoErrorKind where
  | transport
  | http
  | auth
  | decode
  | malformedEvent
  | historyGap
  | streamProtocol
  | config
  | stateStore
  | trigger
  | invalidInput
  | invalidUsage
  | internal
  | panic
  | unknown
  deriving DecidableEq, Repr

/-- `cstring_lossy`: a C string ends at a NUL, so those inside a text are dropped. -/
def cstringLossy (t : Text) : Text := t.filter (·.toNat ≠ 0)

structure OutcomeError where
  kind : AvisoErrorKind
  httpStatus : Nat
  message : Text
  requestId : Option Text
  triggerKind : Option Text
  errorKind : Option Text
  deriving DecidableEq, Repr

namespace OutcomeError

def build (kind : AvisoErrorKind) (httpStatus : Nat) (message : Text)
    (requestId triggerKind errorKind : Option Text) : OutcomeError :=
  ⟨kind, httpStatus, cstringLossy message, requestId.map cstringLossy, triggerKind.map cstringLossy,
    errorKind.map cstringLossy⟩

/-- A fresh copy with another message. -/
def withMessage (e : OutcomeError) (message : Text) : OutcomeError :=
  build e.kind e.httpStatus message e.requestId e.triggerKind e.errorKind

def duplicate (e : OutcomeError) : OutcomeError := e.withMessage e.message

end OutcomeError

def triggerErrorLabel : TriggerError → Text
  | .io => "io".toList
  | .encode => "encode".toList
  | .command => "command".toList
  | .timeout => "timeout".toList
  | .webhook _ => "webhook".toList
  | .webhookBuild => "webhook_build".toList
  | .template => "template".toList

/-- `display` is the text the core gives an error whose message is not its own field. -/
def mapError (display : ClientError → Text) (err : ClientError) : OutcomeError :=
  match err with
  | .transport => .build .transport 0 (display err) none none none
  | .http status body requestId =>
    .build .http status ("http ".toList ++ (toString status).toList ++ ": ".toList ++ body) requestId none none
  | .auth message => .build .auth 0 message.toList none none none
  | .decode => .build .decode 0 (display err) none none none
  | .malformedEvent _ => .build .malformedEvent 0 (display err) none none none
  | .historyGap _ => .build .historyGap 0 (display err) none none none
  | .streamProtocol message requestId => .build .streamProtocol 0 message.toList requestId none none
  | .config message => .build .config 0 message.toList none none none
  | .stateStore => .build .stateStore 0 (display err) none none none
  | .triggerFailed kind source =>
    .build .trigger 0 (display err) none (some kind.toList) (some (triggerErrorLabel source))

def invalidInput (message : String) : OutcomeError := .build .invalidInput 0 message.toList none none none

def invalidUsage (message : String) : OutcomeError := .build .invalidUsage 0 message.toList none none none

def internal (message : Text) : OutcomeError := .build .internal 0 message none none none

def panicError : OutcomeError :=
  .build .panic 0 "a Rust panic was caught at the FFI boundary".toList none none none

/-- What a call hands to C, as far as a watch uses it: nothing, or an error. -/
inductive AvisoOutcome where
  | empty
  | error (e : OutcomeError)
  deriving DecidableEq, Repr

/-- A failed watch of a merged stream. -/
structure EntryError where
  name : String
  error : ClientError
  deriving DecidableEq, Repr

def namedMessage (name message : Text) : Text :=
  "watch '".toList ++ name ++ "': ".toList ++ message

section Texts

variable (display : ClientError → Text)

/-- The error for one failed watch, as `on_error` and `on_end` see it. -/
def entryError (failure : EntryError) : OutcomeError :=
  let mapped := mapError display failure.error
  mapped.withMessage (namedMessage failure.name.toList mapped.message)

/-- The error for a merged watch whose watches all failed. -/
def allFailedError (failures : List EntryError) : OutcomeError :=
  let messages := failures.map fun failure => (entryError display failure).message
  let message := "every watch failed: ".toList ++ List.intercalate "; ".toList messages
  match failures.getLast? with
  | some last => (entryError display last).withMessage message
  | none => internal message

end Texts

end Aviso.Ffi
