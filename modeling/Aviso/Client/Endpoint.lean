import Aviso.Basics
import Aviso.Lib.UrlJoin

namespace Aviso.Client.Endpoint

open Lib.Url (Parser)

variable {U E : Type}

/-- `char::is_control`: the general category Cc. -/
def isControl (c : Char) : Bool := c.toNat ≤ 0x1F || (0x7F ≤ c.toNat && c.toNat ≤ 0x9F)

/-- Why a path segment is refused. -/
inductive SegmentError where
  | empty
  | traverses (segment : Text)
  | forbidden (segment : Text) (c : Char)
  deriving DecidableEq, Repr

/-- A character that changes the target of a request. -/
def forbids (c : Char) : Bool := ['/', '\\', '?', '#'].contains c || isControl c

def validatePathSegment (segment : Text) : Except SegmentError Unit :=
  if segment.isEmpty then .error .empty
  else if segment = ".".toList || segment = "..".toList then .error (.traverses segment)
  else
    match segment.find? forbids with
    | some c => .error (.forbidden segment c)
    | none => .ok ()

/-- Why there is no address to send a request to. -/
inductive ConfigError (U E : Type) where
  | invalidBase (e : E)
  | notHttp
  | segment (e : SegmentError)
  | join (base : U) (relativePath : Text) (e : E)
  deriving DecidableEq, Repr

/-- The address as `build` keeps it: http or https, with a path that ends in a slash. -/
def baseUrl (parser : Parser U E) (raw : Text) : Except (ConfigError U E) U :=
  match parser.parse raw with
  | .error e => .error (.invalidBase e)
  | .ok url =>
    if parser.scheme url = "http".toList || parser.scheme url = "https".toList then
      if (parser.path url).getLast? = some '/' then .ok url
      else .ok (parser.setPath url (parser.path url ++ ['/']))
    else .error .notHttp

def endpoint (parser : Parser U E) (base : U) (relativePath : Text) : Except (ConfigError U E) U :=
  (parser.join base relativePath).mapError (.join base relativePath)

/-- The addresses that hold no text of a caller. -/
def fixedPaths : List Text :=
  ["api/v1/notification".toList, "api/v1/watch".toList, "api/v1/replay".toList, "api/v1/schema".toList,
    "api/v1/admin/wipe/stream".toList, "api/v1/admin/wipe/all".toList]

/-- The addresses with a segment of the caller's. -/
inductive Resource where
  | schemaFor
  | deleteNotification
  deriving DecidableEq, Repr

def Resource.lead : Resource → Text
  | .schemaFor => "api/v1/schema".toList
  | .deleteNotification => "api/v1/admin/notification".toList

/-- The address a resource is asked for under, once its segment is found valid. -/
def Resource.url (r : Resource) (parser : Parser U E) (base : U) (segment : Text) : Except (ConfigError U E) U := do
  (validatePathSegment segment).mapError .segment
  endpoint parser base (r.lead ++ '/' :: segment)

def schemaFor (parser : Parser U E) (base : U) (eventType : Text) : Except (ConfigError U E) U :=
  Resource.schemaFor.url parser base eventType

def deleteNotification (parser : Parser U E) (base : U) (notificationId : Text) : Except (ConfigError U E) U :=
  Resource.deleteNotification.url parser base notificationId

end Aviso.Client.Endpoint
