import Aviso.Client.Resolve
import Aviso.Watch.Backoff

namespace Aviso.Client

open Watch (ClientError)

/-- `AvisoClientBuilder`, over the types of credentials, stores and certificates. -/
structure Builder (π σ κ : Type) where
  baseUrl : Option Text := none
  auth : Option π := none
  timeout : Option Nat := none
  userAgent : Option Text := none
  heartbeatInterval : Option Nat := none
  stateStore : Option σ := none
  extraRootCerts : List κ := []
  dangerAcceptInvalidCerts : Bool := false
  flushCursorOnExit : Bool := false
  /-- Set when `auth` was found by the credential search. -/
  authWasFound : Option CredentialSource := none
  /-- Set when the builder came from the resolver. -/
  lookedUp : Option EnvAddress := none

/-- A setter of the builder, with its argument. -/
inductive Setter (π σ κ : Type) where
  | baseUrl (url : Text)
  | auth (provider : π)
  | foundAuth (found : Discovered π)
  | anonymous
  | timeout (timeout : Nat)
  | userAgent (userAgent : Text)
  | heartbeatInterval (interval : Nat)
  | caBundle (certificate : κ)
  | dangerAcceptInvalidCerts (accept : Bool)
  | flushCursorOnExit (flush : Bool)
  | stateStore (store : σ)

/-- What `build` hands to the HTTP library, and what it gets. -/
structure HttpCrate (κ η : Type) where
  version : Text
  httpClients : (userAgent : Text) → List κ → (danger : Bool) → (timeout : Option Nat) → Except String η

structure AvisoClient (π σ υ η : Type) where
  http : η
  baseUrl : υ
  auth : Option π
  heartbeatInterval : Nat
  stateStore : Option σ
  dangerAcceptInvalidCerts : Bool
  flushCursorOnExit : Bool

/-- `DEFAULT_HEARTBEAT_INTERVAL`. -/
def defaultHeartbeatInterval : Nat := Watch.seconds 30

namespace Builder

variable {π σ κ υ η : Type}

def set (b : Builder π σ κ) : Setter π σ κ → Builder π σ κ
  | .baseUrl url => { b with baseUrl := some url }
  | .auth provider => { b with auth := some provider, authWasFound := none }
  | .foundAuth found =>
    { b with authWasFound := some found.source, auth := some found.provider }
  | .anonymous => { b with auth := none, authWasFound := none }
  | .timeout timeout => { b with timeout := some timeout }
  | .userAgent userAgent => { b with userAgent := some userAgent }
  | .heartbeatInterval interval => { b with heartbeatInterval := some interval }
  | .caBundle certificate => { b with extraRootCerts := b.extraRootCerts ++ [certificate] }
  | .dangerAcceptInvalidCerts accept => { b with dangerAcceptInvalidCerts := accept }
  | .flushCursorOnExit flush => { b with flushCursorOnExit := flush }
  | .stateStore store => { b with stateStore := some store }

/-- Setters, one after the other. -/
def sets (b : Builder π σ κ) (calls : List (Setter π σ κ)) : Builder π σ κ := calls.foldl set b

/-- The loop of `from_resolution` over the certificates of the file. -/
def addCertificates (readCaBundle : Text → Except ClientError κ) :
    List Text → Builder π σ κ → Except ClientError (Builder π σ κ)
  | [], b => .ok b
  | path :: paths, b => do
    addCertificates readCaBundle paths (b.set (.caBundle (← readCaBundle path)))

/-- The address and the durations a resolution chose. -/
def ofReport (r : Resolution π) : Builder π σ κ :=
  let b : Builder π σ κ := { lookedUp := some r.envAddress }
  let b := r.rawBaseUrl.elim b fun url => b.set (.baseUrl url)
  let b := r.settings.timeout.value.elim b fun t => b.set (.timeout t)
  r.settings.heartbeatInterval.value.elim b fun h => b.set (.heartbeatInterval h)

/-- The credential a resolution chose. -/
def attach (b : Builder π σ κ) (r : Resolution π) : Builder π σ κ :=
  let b := r.found.elim b fun found => b.set (.foundAuth found)
  match r.codeAuth with
  | some (.named provider) => b.set (.auth provider)
  | some .anonymous => b.set .anonymous
  | none => b

def fromResolution (readCaBundle : Text → Except ClientError κ) (r : Resolution π) :
    Except ClientError (Builder π σ κ) := do
  let b ← addCertificates readCaBundle r.fileSettings.caBundle (ofReport r)
  let b := if r.settings.dangerAcceptInvalidCerts.value then b.set (.dangerAcceptInvalidCerts true) else b
  return b.attach r

def missingBaseUrl : Option EnvAddress → String
  | some .read =>
    "AvisoClient requires a base_url; none was set in code, and none was found in AVISO_BASE_URL " ++
      "or the config file"
  | some .ignore =>
    "AvisoClient requires a base_url; none was set in code, and the config file has none"
  | none => "AvisoClient requires a base_url"

variable (url : UrlCrate υ) (http : HttpCrate κ η)

def refusal (source : CredentialSource) (raw : Text) : String :=
  "refusing to send the credential from the " ++ source.display ++ " to " ++
    String.ofList (url.urlWithoutUserinfo raw) ++ ", which is not https and not a loopback " ++
    "address. Use an https address, or name the credential with .auth() if you intend to send it " ++
    "in the clear."

def build (b : Builder π σ κ) : Except ClientError (AvisoClient π σ υ η) :=
  match b.baseUrl with
  | none => .error (.config (missingBaseUrl b.lookedUp))
  | some raw =>
    match url.parse raw with
    | .error e => .error (.config ("invalid base_url: " ++ e))
    | .ok baseUrl =>
      if url.scheme baseUrl ≠ "http".toList ∧ url.scheme baseUrl ≠ "https".toList then
        .error (.config "base_url must use http or https")
      else
        match b.authWasFound.filter fun _ => url.isPublicPlaintext raw with
        | some source => .error (.auth (refusal url source raw))
        | none =>
          match http.httpClients (b.userAgent.getD ("aviso/".toList ++ http.version))
              b.extraRootCerts b.dangerAcceptInvalidCerts b.timeout with
          | .error e => .error (.config e)
          | .ok clients =>
            .ok {
              http := clients
              baseUrl := url.normalized baseUrl
              auth := b.auth
              heartbeatInterval := b.heartbeatInterval.getD defaultHeartbeatInterval
              stateStore := b.stateStore
              dangerAcceptInvalidCerts := b.dangerAcceptInvalidCerts
              flushCursorOnExit := b.flushCursorOnExit }

end Builder
end Aviso.Client
