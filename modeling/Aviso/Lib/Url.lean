import Mathlib.Data.List.DropRight
import Mathlib.Algebra.Order.Ring.Nat

namespace Aviso.Lib.Url

/-- A C0 control or a space, which are cut off at both ends of an input. -/
def isBlank (c : Char) : Bool := c.toNat ≤ 0x20

def isTabOrNewline (c : Char) : Bool := c = '\t' || c = '\n' || c = '\r'

/-- What the parser reads of an input. -/
def clean (input : List Char) : List Char :=
  ((input.dropWhile isBlank).rdropWhile isBlank).filter (!isTabOrNewline ·)

/-- A character the parser reads as it is wherever it stands after an authority. -/
def isInert (c : Char) : Bool := c.isAlphanum || c = '-' || c = '_' || c = '~' || c = '%'

section Encoding

def hexDigit (n : Nat) : Char := "0123456789ABCDEF".toList.getD n '0'

def percentEncodeByte (byte : UInt8) : List Char :=
  ['%', hexDigit (byte.toNat / 16), hexDigit (byte.toNat % 16)]

/-- A text with the characters of a percent-encode set encoded. -/
def encode (set : Char → Bool) (text : List Char) : List Char :=
  text.flatMap fun c =>
    if set c then (String.utf8EncodeChar c).flatMap percentEncodeByte else [c]

def controlSet (c : Char) : Bool := c.toNat ≤ 0x1F || 0x7E < c.toNat

def fragmentSet (c : Char) : Bool := controlSet c || [' ', '"', '<', '>', '`'].contains c

def querySet (c : Char) : Bool := controlSet c || [' ', '"', '#', '<', '>'].contains c

def specialQuerySet (c : Char) : Bool := querySet c || c = '\''

def pathSet (c : Char) : Bool := querySet c || ['?', '^', '`', '\x7b', '\x7d'].contains c

def userinfoSet (c : Char) : Bool :=
  pathSet c || ['/', ':', ';', '=', '@', '[', '\\', ']', '|'].contains c

def hexValue (c : Char) : Option Nat :=
  if '0' ≤ c && c ≤ '9' then some (c.toNat - '0'.toNat)
  else if 'a' ≤ c && c ≤ 'f' then some (c.toNat - 'a'.toNat + 10)
  else if 'A' ≤ c && c ≤ 'F' then some (c.toNat - 'A'.toNat + 10)
  else none

/-- The bytes a percent-encoded text stands for. -/
def percentDecode : List Char → List UInt8
  | '%' :: high :: low :: rest =>
    match hexValue high, hexValue low with
    | some h, some l => (h * 16 + l).toUInt8 :: percentDecode rest
    | _, _ => String.utf8EncodeChar '%' ++ percentDecode (high :: low :: rest)
  | c :: rest => String.utf8EncodeChar c ++ percentDecode rest
  | [] => []

end Encoding

/-- The parser of hosts, which this one calls: `parse` is told whether the host is opaque,
and `isLocalhost` whether it is the name that stands for no host in a file URL. -/
structure HostParser (H : Type) where
  parse : Bool → List Char → Option H
  isLocalhost : H → Bool

/-- A host that is written may still be empty. -/
inductive Host (H : Type) where
  | empty
  | parsed (h : H)
  deriving DecidableEq, Repr

structure Authority (H : Type) where
  username : List Char
  password : List Char
  host : Option (Host H)
  port : Option Nat
  deriving DecidableEq, Repr

inductive Path where
  | opaqueText (text : List Char)
  | segments (list : List (List Char))
  deriving DecidableEq, Repr

structure Record (H : Type) where
  scheme : List Char
  authority : Authority H
  path : Path
  query : Option (List Char)
  fragment : Option (List Char)
  deriving DecidableEq, Repr

/-- The special schemes other than `file`, with their default ports. -/
def serverSchemes : List (List Char × Nat) :=
  [("ftp".toList, 21), ("http".toList, 80), ("https".toList, 443), ("ws".toList, 80), ("wss".toList, 443)]

/-- How the text after the scheme is read. -/
inductive Kind where
  | server (defaultPort : Nat)
  | file
  | other
  deriving DecidableEq, Repr

def kindOf (scheme : List Char) : Kind :=
  match serverSchemes.lookup scheme with
  | some port => .server port
  | none => if scheme = "file".toList then .file else .other

def Kind.isSpecial : Kind → Bool
  | .server _ | .file => true
  | .other => false

section Cutting

/-- The scheme, in lower case, and the text after its colon. -/
def splitScheme (input : List Char) : Option (List Char × List Char) :=
  match input.takeWhile (· ≠ ':'), input.dropWhile (· ≠ ':') with
  | first :: scheme, _ :: rest =>
    if first.isAlpha && scheme.all (fun c => c.isAlphanum || c = '+' || c = '-' || c = '.') then
      some ((first :: scheme).map Char.toLower, rest)
    else none
  | _, _ => none

def isSlash (c : Char) : Bool := c = '/' || c = '\\'

/-- Whether a character ends an authority; a backslash does in a special URL. -/
def endsAuthority (special : Bool) (c : Char) : Bool :=
  c = '/' || c = '?' || c = '#' || (special && c = '\\')

/-- The text of an authority. -/
inductive RawAuthority where
  | absent
  | server (text : List Char)
  | file (text : List Char)
  deriving DecidableEq, Repr

/-- What is read next: a path after an authority, a path whose first slash is behind it,
or an opaque path. -/
inductive PathMode where
  | start
  | list
  | opaqueText
  deriving DecidableEq, Repr

def isDriveLetter : List Char → Bool
  | [letter, mark] => letter.isAlpha && (mark = ':' || mark = '|')
  | _ => false

/-- The authority of the text after the scheme, and the text after it. -/
def cutAuthority (kind : Kind) (rest : List Char) : RawAuthority × PathMode × List Char :=
  match kind with
  | .server _ =>
    let text := rest.dropWhile isSlash
    (.server (text.takeWhile (!endsAuthority true ·)), .start, text.dropWhile (!endsAuthority true ·))
  | .file =>
    match rest with
    | first :: second :: text =>
      if isSlash first && isSlash second then
        let host := text.takeWhile (!endsAuthority true ·)
        if isDriveLetter host then (.file [], .list, text)
        else (.file host, .start, text.dropWhile (!endsAuthority true ·))
      else if isSlash first then (.file [], .list, second :: text)
      else (.file [], .list, rest)
    | [first] => (.file [], .list, if isSlash first then [] else [first])
    | [] => (.file [], .list, [])
  | .other =>
    match rest with
    | '/' :: '/' :: text =>
      (.server (text.takeWhile (!endsAuthority false ·)), .start,
        text.dropWhile (!endsAuthority false ·))
    | '/' :: text => (.absent, .list, text)
    | text => (.absent, .opaqueText, text)

/-- The text of a path. -/
inductive RawPath where
  | opaqueText (text : List Char)
  | segments (list : List (List Char))
  deriving DecidableEq, Repr

def separatesPath (special : Bool) (c : Char) : Bool := c = '/' || (special && c = '\\')

def cutPath (special : Bool) (mode : PathMode) (text : List Char) : RawPath :=
  match mode with
  | .opaqueText => .opaqueText text
  | .list => .segments (text.splitOnP (separatesPath special))
  | .start =>
    match text with
    | [] => .segments (if special then [[]] else [])
    | c :: rest =>
      .segments ((if separatesPath special c then rest else text).splitOnP (separatesPath special))

def endsPath (c : Char) : Bool := c = '?' || c = '#'

def afterMark (mark : Char) : List Char → Option (List Char)
  | c :: rest => if c = mark then some rest else none
  | [] => none

/-- What follows the authority of a URL. -/
structure Tail where
  path : RawPath
  query : Option (List Char)
  fragment : Option (List Char)
  deriving DecidableEq, Repr

def cutTail (special : Bool) (mode : PathMode) (text : List Char) : Tail :=
  let rest := text.dropWhile (!endsPath ·)
  { path := cutPath special mode (text.takeWhile (!endsPath ·))
    query := (afterMark '?' rest).map (·.takeWhile (· ≠ '#'))
    fragment := afterMark '#' (rest.dropWhile (· ≠ '#')) }

/-- The parts of an absolute URL. -/
structure Parts where
  scheme : List Char
  authority : RawAuthority
  tail : Tail
  deriving DecidableEq, Repr

def cut (input : List Char) : Option Parts :=
  (splitScheme (clean input)).map fun (scheme, rest) =>
    let kind := kindOf scheme
    let (authority, mode, text) := cutAuthority kind rest
    ⟨scheme, authority, cutTail kind.isSpecial mode text⟩

end Cutting

section Reading

variable {H : Type} (hosts : HostParser H)

/-- The host of an authority and the text of its port; a colon in brackets is part of the host. -/
def splitPort (inBrackets : Bool) : List Char → List Char × Option (List Char)
  | [] => ([], none)
  | c :: rest =>
    if c = ':' && !inBrackets then ([], some rest)
    else
      let (host, port) := splitPort (if c = '[' then true else if c = ']' then false else inBrackets) rest
      (c :: host, port)

/-- A port, unless it is the default one. -/
def readPort (kind : Kind) (text : List Char) : Option (Option Nat) :=
  if !text.all Char.isDigit then none
  else if text.isEmpty then some none
  else
    let port := text.foldl (fun n c => n * 10 + (c.toNat - '0'.toNat)) 0
    if 65535 < port then none else some (if kind = .server port then none else some port)

def readHost (kind : Kind) (text : List Char) : Option (Host H) :=
  if text.isEmpty then if kind.isSpecial then none else some .empty
  else (hosts.parse (!kind.isSpecial) text).map .parsed

/-- The credentials before the last `@`, an `@` among them encoded. -/
def readCredentials (text : List Char) : List Char × List Char :=
  let text := text.flatMap fun c => if c = '@' then "%40".toList else [c]
  (encode userinfoSet (text.takeWhile (· ≠ ':')), encode userinfoSet ((text.dropWhile (· ≠ ':')).drop 1))

def readServer (kind : Kind) (text : List Char) : Option (Authority H) :=
  let server := text.rtakeWhile (· ≠ '@')
  let (username, password) := readCredentials (text.rdropWhile (· ≠ '@')).dropLast
  if text.contains '@' && server.isEmpty then none
  else
    match splitPort false server with
    | (host, none) => (readHost hosts kind host).map fun host => ⟨username, password, some host, none⟩
    | (host, some port) =>
      if host.isEmpty then none
      else
        (readHost hosts kind host).bind fun host =>
          (readPort kind port).map fun port => ⟨username, password, some host, port⟩

def readFile (text : List Char) : Option (Authority H) :=
  if text.isEmpty then some ⟨[], [], some .empty, none⟩
  else
    (hosts.parse false text).map fun host =>
      ⟨[], [], some (if hosts.isLocalhost host then .empty else .parsed host), none⟩

def readAuthority (kind : Kind) : RawAuthority → Option (Authority H)
  | .absent => some ⟨[], [], none, none⟩
  | .server text => readServer hosts kind text
  | .file text => readFile hosts text

/-- The segments that stand for the place they are in. -/
inductive Dots where
  | single
  | double
  deriving DecidableEq, Repr

def dotsOf (segment : List Char) : Option Dots :=
  let lower := segment.map Char.toLower
  if [".", "%2e"].any (fun dots => dots.toList = lower) then some .single
  else if ["..", ".%2e", "%2e.", "%2e%2e"].any (fun dots => dots.toList = lower) then some .double
  else none

def isNormalizedDriveLetter (segment : List Char) : Bool :=
  isDriveLetter segment && segment.getLast? = some ':'

/-- A path without its last segment; the drive letter of a file stays. -/
def shorten (kind : Kind) (path : List (List Char)) : List (List Char) :=
  match kind, path with
  | .file, [segment] => if isNormalizedDriveLetter segment then path else []
  | _, _ => path.dropLast

/-- A drive letter at the start of the path of a file is written with a colon. -/
def normalize (kind : Kind) (path : List (List Char)) (segment : List Char) : List Char :=
  if kind = .file && path.isEmpty && isDriveLetter segment then segment.take 1 ++ [':'] else segment

/-- A segment is added to a path; after a last one that is dots the path ends in a slash. -/
def addSegment (kind : Kind) (path : List (List Char)) (segment : List Char) (last : Bool) :
    List (List Char) :=
  match dotsOf segment with
  | some dots =>
    let path := if dots = .double then shorten kind path else path
    if last then path ++ [[]] else path
  | none => path ++ [normalize kind path segment]

def fold (kind : Kind) (path : List (List Char)) : List (List Char) → List (List Char)
  | [] => path
  | [segment] => addSegment kind path segment true
  | segment :: rest => fold kind (addSegment kind path segment false) rest

def readPath (kind : Kind) : RawPath → Path
  | .opaqueText text => .opaqueText (encode controlSet text)
  | .segments list => .segments (fold kind [] (list.map (encode pathSet)))

def readQuery (kind : Kind) (text : List Char) : List Char :=
  encode (if kind.isSpecial then specialQuerySet else querySet) text

def read (parts : Parts) : Option (Record H) :=
  (readAuthority hosts (kindOf parts.scheme) parts.authority).map fun authority =>
    { scheme := parts.scheme
      authority := authority
      path := readPath (kindOf parts.scheme) parts.tail.path
      query := parts.tail.query.map (readQuery (kindOf parts.scheme))
      fragment := parts.tail.fragment.map (encode fragmentSet) }

/-- The URL parser of the URL Standard, for absolute URLs: an input is cut into its parts,
and these are read. -/
def parse (input : List Char) : Option (Record H) := (cut input).bind (read hosts)

end Reading

/-- The sequences of a query that are its parameters, as the form decoder finds them. -/
def parameters (query : List Char) : List (List Char) :=
  (query.splitOnP (· = '&')).filter (!·.isEmpty)

end Aviso.Lib.Url
