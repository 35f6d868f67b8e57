import Aviso.Lib.Framing
import Aviso.State.MemoryStore
import Aviso.Json

namespace Aviso.State

/-- `str::as_bytes`. -/
def asBytes (text : Text) : List UInt8 := text.flatMap String.utf8EncodeChar

/-- A byte string the program holds: its length is a `usize`. -/
abbrev Bytes := { bytes : List UInt8 // bytes.length ≤ usizeMax }

/-- What the key reads of a `url::Url`; the host is as `url::Host` displays it. -/
structure BaseUrl where
  scheme : Text
  host : Option Text
  port : Option UInt16
  path : Text
  deriving DecidableEq, Repr

def toAsciiLowercase (text : Text) : Text := text.map Char.toLower

def normalizeBaseUrl (url : BaseUrl) : Text :=
  let scheme := toAsciiLowercase url.scheme
  let host := url.host.elim [] toAsciiLowercase
  let portPart :=
    match url.port with
    | none => []
    | some p =>
      if p = 80 ∧ scheme = "http".toList ∨ p = 443 ∧ scheme = "https".toList then []
      else ':' :: (toString p.toNat).toList
  let path := if url.path.isEmpty then "/".toList else url.path
  scheme ++ "://".toList ++ host ++ portPart ++ path

/-- The arguments of `ResumeKey::new`. The strings among them, and the normalised
URL made from one, are in memory. -/
structure WatchIdentity where
  baseUrl : BaseUrl
  eventType : Text
  filter : Json
  schemaFingerprint : Option Text
  baseUrl_fits : (asBytes (normalizeBaseUrl baseUrl)).length ≤ usizeMax
  eventType_fits : (asBytes eventType).length ≤ usizeMax
  schemaFingerprint_fits : ∀ text ∈ schemaFingerprint, (asBytes text).length ≤ usizeMax

/-- A `Sha256` in progress: the bytes it has been fed. -/
abbrev Hasher := List UInt8

def Hasher.update (hasher : Hasher) (bytes : List UInt8) : Hasher := hasher ++ bytes

def writeField (hasher : Hasher) (bytes : List UInt8) : Hasher :=
  (hasher.update (Lib.leBytes 8 bytes.length)).update bytes

def writeOptionalField (hasher : Hasher) : Option (List UInt8) → Hasher
  | some bytes => writeField (hasher.update [1]) bytes
  | none => hasher.update [0]

/-- All that is fed to the hash. -/
def hashInput (id : WatchIdentity) (canonicalFilter : Bytes) : Hasher :=
  let hasher := Hasher.update [] (Lib.leBytes 4 keyFormatVersion)
  let hasher := writeField hasher (asBytes (normalizeBaseUrl id.baseUrl))
  let hasher := writeField hasher (asBytes id.eventType)
  let hasher := writeField hasher canonicalFilter.val
  writeOptionalField hasher (id.schemaFingerprint.map asBytes)

inductive ResumeKeyError where
  | canonicaliseFilter (source : String)
  deriving DecidableEq, Repr

/-- `ResumeKey::new`, over the canonical JSON of `serde_jcs::to_vec` and the hash. -/
def ResumeKey.new (toVec : Json → Except String Bytes) (sha256 : List UInt8 → Vector UInt8 32)
    (id : WatchIdentity) : Except ResumeKeyError ResumeKey :=
  match toVec id.filter with
  | .error source => .error (.canonicaliseFilter source)
  | .ok canonicalFilter => .ok ⟨sha256 (hashInput id canonicalFilter), State.keyFormatVersion⟩

end Aviso.State
