import Aviso.Client.Address
import Aviso.Watch.Wire

namespace Aviso.Client

open Watch (ClientError)

/-- Where a credential was found. -/
inductive CredentialSource where
  | environment
  | configFile (path : Text)
  | credentialsFile (path : Text)
  deriving DecidableEq, Repr

def CredentialSource.label : CredentialSource → String
  | .environment => "environment"
  | .configFile _ => "config file"
  | .credentialsFile _ => "credentials file"

def CredentialSource.display : CredentialSource → String
  | .environment => "environment"
  | s@(.configFile path) | s@(.credentialsFile path) => s.label ++ " " ++ String.ofList path

/-- A credential the search found. -/
structure Discovered (π : Type) where
  provider : π
  source : CredentialSource

structure DiscoveryPaths where
  configFile : Option Text
  configContent : Option Text
  credentialsFile : Option Text

/-- Which optional keys the file wrote out. -/
structure Explicit where
  caBundle : Bool
  dangerAcceptInvalidCerts : Bool

/-- The part of a config file a client uses; durations are in nanoseconds. -/
structure ClientSettings where
  baseUrl : Option Text
  timeout : Option Nat
  heartbeatInterval : Option Nat
  caBundle : List Text
  dangerAcceptInvalidCerts : Bool
  explicit : Explicit

def ClientSettings.default : ClientSettings := ⟨none, none, none, [], false, ⟨false, false⟩⟩

structure LoadedSettings where
  settings : ClientSettings
  content : Text
  path : Text

inductive VarError where
  | notPresent
  /-- The value, as it is shown. -/
  | notUnicode (raw : String)

/-- What the client reads of the machine it runs on: the config file, the
environment and the credential files. -/
structure Surroundings (π : Type) where
  parse : Text → Text → Except ClientError ClientSettings
  readDefault : Option Text → Except ClientError (Option LoadedSettings)
  var : String → Except VarError Text
  envProvider : Except ClientError (Option π)
  configContentProvider : Text → Text → Except ClientError (Option π)
  configFileProvider : Text → Except ClientError (Option π)
  credentialsFileProvider : Text → Except ClientError (Option π)
  /-- `AuthProvider::kind`. -/
  kind : π → String

inductive Source where
  | code
  | environment (name : String)
  | configFile (path : Text)
  | credentialsFile (path : Text)
  | default
  deriving DecidableEq, Repr

def Source.ofCredential : CredentialSource → Source
  | .environment => .environment "AVISO_TOKEN or AVISO_USERNAME"
  | .configFile path => .configFile path
  | .credentialsFile path => .credentialsFile path

structure Sourced (α : Type) where
  value : α
  source : Source

/-- The credential a client will send; `refused` says why it will not be sent. -/
structure ResolvedAuth where
  kind : String
  source : Source
  refused : Option String

structure ResolvedSettings where
  baseUrl : Option (Sourced Text)
  timeout : Sourced (Option Nat)
  heartbeatInterval : Sourced (Option Nat)
  caBundle : Sourced (List Text)
  dangerAcceptInvalidCerts : Sourced Bool
  auth : Option ResolvedAuth
  configFile : Option Text
  credentialsFile : Option Text

/-- A credential decision made in code. -/
inductive CodeAuth (π : Type) where
  | named (provider : π)
  | anonymous

structure CodeInputs (π : Type) where
  baseUrl : Option Text
  timeout : Option Nat
  heartbeatInterval : Option Nat
  dangerAcceptInvalidCerts : Option Bool
  auth : Option (CodeAuth π)

/-- Whether `AVISO_BASE_URL` may supply the address. -/
inductive EnvAddress where
  | read
  | ignore
  deriving DecidableEq, Repr

/-- The report, and what the builder needs besides it. -/
structure Resolution (π : Type) where
  settings : ResolvedSettings
  rawBaseUrl : Option Text
  fileSettings : ClientSettings
  found : Option (Discovered π)
  codeAuth : Option (CodeAuth π)
  envAddress : EnvAddress

namespace Surroundings

variable (env : Surroundings π)

/-- `discover_with`: the environment, the config file, the credentials file. -/
def discoverWith (paths : DiscoveryPaths) : Except ClientError (Option (Discovered π)) := do
  if let some provider ← env.envProvider then
    return some ⟨provider, .environment⟩
  if let some path := paths.configFile then
    let provider ← match paths.configContent with
      | some content => env.configContentProvider content path
      | none => env.configFileProvider path
    if let some provider := provider then
      return some ⟨provider, .configFile path⟩
  if let some path := paths.credentialsFile then
    if let some provider ← env.credentialsFileProvider path then
      return some ⟨provider, .credentialsFile path⟩
  return none

/-- `env_var`: an empty variable counts as unset. -/
def envVar (name : String) : Except ClientError (Option Text) :=
  match env.var name with
  | .ok v => .ok (if v.isEmpty then none else some v)
  | .error .notPresent => .ok none
  | .error (.notUnicode raw) =>
    .error (.config (name ++ " is set but its value is not valid UTF-8 (" ++ raw ++
      "); set a UTF-8 value or unset the variable"))

def codeKind : CodeAuth π → String
  | .named provider => env.kind provider
  | .anonymous => "anonymous"

variable (url : UrlCrate υ)

/-- Why a found credential will not be sent to this address, if it will not. -/
def refusal (baseUrl : Text) : String :=
  "refused: " ++ String.ofList (url.urlWithoutUserinfo baseUrl) ++
    " is plain http on a host that is not loopback, so the client will not be built. Use https, " ++
    "or name the credential in code to send it anyway."

def resolveAuth (inputs : CodeInputs π) (paths : DiscoveryPaths) (baseUrl : Option Text) :
    Except ClientError (Option ResolvedAuth × Option (Discovered π)) :=
  match inputs.auth with
  | some chosen => .ok (some ⟨env.codeKind chosen, .code, none⟩, none)
  | none => do
    match ← env.discoverWith paths with
    | none => return (none, none)
    | some found =>
      let refused := (baseUrl.filter url.isPublicPlaintext).map (refusal url)
      return (some ⟨env.kind found.provider, .ofCredential found.source, refused⟩, some found)

/-- The config file in use: the caller's text of it, else the one on disk. -/
def load (paths : DiscoveryPaths) : Except ClientError (Option LoadedSettings) :=
  match paths.configFile, paths.configContent with
  | some path, some content => (env.parse content path).map fun settings =>
      some ⟨settings, content, path⟩
  | _, _ => env.readDefault paths.configFile

def baseUrlOf (inputs : CodeInputs π) (envAddress : EnvAddress) (settings : ClientSettings)
    (fileSource : Bool → Source) : Except ClientError (Option (Sourced Text)) :=
  match inputs.baseUrl with
  | some url => .ok (some ⟨url, .code⟩)
  | none => do
    match ← (match envAddress with
      | .read => env.envVar "AVISO_BASE_URL"
      | .ignore => .ok none) with
    | some url => return some ⟨url, .environment "AVISO_BASE_URL"⟩
    | none => return settings.baseUrl.map fun url => ⟨url, fileSource true⟩

def resolve (inputs : CodeInputs π) (paths : DiscoveryPaths) (envAddress : EnvAddress) :
    Except ClientError (Resolution π) := do
  let loaded ← env.load paths
  -- the search reads the same text, or skips the file when there was none
  let paths := match loaded with
    | some loaded => { paths with configFile := some loaded.path, configContent := some loaded.content }
    | none => { paths with configFile := none }
  let settings := (loaded.map (·.settings)).getD .default
  let configFile := loaded.map (·.path)
  let fileSource (present : Bool) : Source :=
    match configFile, present with
    | some path, true => .configFile path
    | _, _ => .default
  let baseUrl ← env.baseUrlOf inputs envAddress settings fileSource
  let timeout : Sourced (Option Nat) := match inputs.timeout with
    | some t => ⟨some t, .code⟩
    | none => ⟨settings.timeout, fileSource settings.timeout.isSome⟩
  let heartbeatInterval : Sourced (Option Nat) := match inputs.heartbeatInterval with
    | some h => ⟨some h, .code⟩
    | none => ⟨settings.heartbeatInterval, fileSource settings.heartbeatInterval.isSome⟩
  let danger : Sourced Bool := match inputs.dangerAcceptInvalidCerts with
    | some v => ⟨v, .code⟩
    | none => ⟨settings.dangerAcceptInvalidCerts,
        fileSource settings.explicit.dangerAcceptInvalidCerts⟩
  let (auth, found) ← env.resolveAuth url inputs paths (baseUrl.map (·.value))
  let reachedCredentialsFile := inputs.auth.isNone && found.all fun found =>
    match found.source with
    | .credentialsFile _ => true
    | _ => false
  return {
    settings := {
      baseUrl := baseUrl.map fun baseUrl => ⟨url.displayAddress baseUrl.value, baseUrl.source⟩
      timeout := timeout
      heartbeatInterval := heartbeatInterval
      caBundle := ⟨settings.caBundle, fileSource settings.explicit.caBundle⟩
      dangerAcceptInvalidCerts := danger
      auth := auth
      configFile := configFile
      credentialsFile := paths.credentialsFile.filter fun _ => reachedCredentialsFile }
    rawBaseUrl := baseUrl.map (·.value)
    fileSettings := { ClientSettings.default with caBundle := settings.caBundle }
    found := found
    codeAuth := inputs.auth
    envAddress := envAddress }

end Surroundings
end Aviso.Client
