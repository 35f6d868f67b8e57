import Aviso.Lib.Overlay
import Aviso.Template.Webhook

namespace Aviso.Template

open Watch (Notification TriggerError)

/-- Environment variables that carry the listener's own credentials. -/
def credentialVars : List Text := ["AVISO_TOKEN".toList, "AVISO_USERNAME".toList, "AVISO_PASSWORD".toList]

structure CommandConfig where
  commandTemplate : TemplateResult
  env : List (Text × Text)
  workingDir : Option Text

/-- Names of every environment variable the template reads. -/
def CompiledTemplate.envNames (t : CompiledTemplate) : List Text :=
  t.segments.filterMap fun
    | .envVar name => some name
    | _ => none

/-- What the filesystem says of a working directory. -/
inductive DirState where
  | unreadable
  | missing
  | notDirectory
  | directory
  deriving DecidableEq, Repr

/-- What `/bin/sh -c` is started with; `β` is the type of the values of the environment. -/
structure Child (β : Type) where
  command : Text
  env : Text → Option β
  workingDir : Option Text

/-- How a child ends; the code is absent when a signal ended it. -/
inductive ChildEnd where
  | spawnFailed
  | waitFailed
  | timedOut
  | exited (code : Option Int)
  deriving DecidableEq, Repr

/-- Uppercase the key and replace non-alphanumerics with `_`. -/
def normalizeKey (k : Text) : Text := k.map fun c => if c.isAlphanum then c.toUpper else '_'

def identifierVar (k : Text) : Text := "AVISO_IDENTIFIER_".toList ++ normalizeKey k

section Dispatch

variable {β : Type} (toString : Json → Text) (encode : Notification → Except TriggerError Text)

/-- An identifier value as the child sees it. -/
def injectedValue : Json → Text
  | .string value => value
  | other => toString other

def envInjection (n : Notification) : Except TriggerError (List (Text × Text)) := do
  let notificationJson ← encode n
  return [("AVISO_EVENT_TYPE".toList, n.eventType), ("AVISO_SEQUENCE".toList, (Nat.repr n.sequence).toList)] ++
    n.identifier.map (fun (k, v) => (identifierVar k, injectedValue toString v)) ++
    [("AVISO_PAYLOAD_JSON".toList, toString n.payload), ("AVISO_NOTIFICATION_JSON".toList, notificationJson)]

variable (ofText : Text → β) (unicode : β → Option Text)

/-- `std::env::var`. -/
def envVar (inherited : Text → Option β) (name : Text) : Except TemplateErrorKind Text :=
  match inherited name with
  | none => .error .envNotSet
  | some value =>
    match unicode value with
    | none => .error .envNotUnicode
    | some text => .ok text

/-- What the dispatcher does to the inherited environment: the injected variables, then the removals,
and the operator's own map last. -/
def envChanges (injected : List (Text × Text)) (removed : List Text) (own : List (Text × Text)) :
    List (Text × Option β) :=
  injected.map (fun (k, v) => (k, some (ofText v))) ++ removed.map (fun name => (name, none)) ++
    own.map fun (k, v) => (k, some (ofText v))

def checkWorkingDir (dir : Text → DirState) : Option Text → Except TriggerError Unit
  | none => .ok ()
  | some path =>
    match dir path with
    | .directory => .ok ()
    | _ => .error .io

/-- `dispatch_command`, up to the spawn. -/
def prepareCommand (dir : Text → DirState) (inherited : Text → Option β) (cfg : CommandConfig) (n : Notification) :
    Except TriggerError (Child β) :=
  match cfg.commandTemplate with
  | .error _ => .error .template
  | .ok template => do
    let command ← (template.renderWithEnv toString n (envVar unicode inherited) .shell).mapError fun _ =>
      TriggerError.template
    checkWorkingDir dir cfg.workingDir
    let injected ← envInjection toString encode n
    return {
      command := command
      env := Lib.overlay inherited (envChanges ofText injected (credentialVars ++ template.envNames) cfg.env)
      workingDir := cfg.workingDir }

/-- The rest of `dispatch_command`; `run` is what becomes of a child. -/
def dispatchCommand (dir : Text → DirState) (run : Child β → ChildEnd) (inherited : Text → Option β)
    (cfg : CommandConfig) (n : Notification) : Except TriggerError Unit := do
  let child ← prepareCommand toString encode ofText unicode dir inherited cfg n
  match run child with
  | .spawnFailed | .waitFailed => .error .io
  | .timedOut => .error .timeout
  | .exited code => if code = some 0 then .ok () else .error .command

end Dispatch

end Aviso.Template
