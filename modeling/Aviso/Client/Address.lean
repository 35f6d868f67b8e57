import Aviso.Basics

namespace Aviso.Client

/-- `url::Host`; the addresses are the numbers they stand for. -/
inductive Host where
  | domain (name : Text)
  | ipv4 (addr : BitVec 32)
  | ipv6 (addr : BitVec 128)
  deriving DecidableEq, Repr

/-- What the client uses of the URL library: its parser and the accessors of a
parsed URL. The setters of the user information fail on a URL that has no place
for it. -/
structure UrlCrate (υ : Type) where
  parse : Text → Except String υ
  scheme : υ → Text
  host : υ → Option Host
  path : υ → Text
  username : υ → Text
  password : υ → Option Text
  setPath : υ → Text → υ
  setUsername : υ → Text → Option υ
  setPassword : υ → Option Text → Option υ
  toText : υ → Text
  /-- A parsed scheme is in lower case. -/
  scheme_lower : parse s = .ok u → (scheme u).map Char.toLower = scheme u
  scheme_setPath : scheme (setPath u p) = scheme u
  host_setPath : host (setPath u p) = host u

/-- `eq_ignore_ascii_case`. -/
def eqIgnoreAsciiCase (s t : Text) : Bool := s.map Char.toLower = t.map Char.toLower

/-- `Ipv4Addr::is_loopback`. -/
def isLoopback4 (addr : BitVec 32) : Bool := addr >>> 24 = 127#32

/-- `Ipv6Addr::to_ipv4_mapped`. -/
def toIpv4Mapped (addr : BitVec 128) : Option (BitVec 32) :=
  if addr >>> 32 = 0xffff#128 then some (addr.truncate 32) else none

/-- Whether a host is the machine itself. -/
def Host.isLoopback : Host → Bool
  | .domain name =>
    eqIgnoreAsciiCase name "localhost".toList ||
      ".localhost".toList.isSuffixOf (name.map Char.toLower)
  | .ipv4 addr => isLoopback4 addr
  | .ipv6 addr => addr = 1#128 || (toIpv4Mapped addr).any isLoopback4

namespace UrlCrate

variable (url : UrlCrate υ)

/-- Whether a parsed address is plain http to a host other than the machine itself. -/
def PlainRemote (u : υ) : Prop :=
  url.scheme u = "http".toList ∧ (url.host u).any Host.isLoopback = false

instance (u : υ) : Decidable (url.PlainRemote u) := inferInstanceAs (Decidable (_ ∧ _))

def urlKeepsCredentialsPrivate (baseUrl : Text) : Bool :=
  match url.parse baseUrl with
  | .error _ => false
  | .ok parsed =>
    if eqIgnoreAsciiCase (url.scheme parsed) "https".toList then true
    else if !eqIgnoreAsciiCase (url.scheme parsed) "http".toList then false
    else (url.host parsed).any Host.isLoopback

def isPublicPlaintext (baseUrl : Text) : Bool :=
  match url.parse baseUrl with
  | .error _ => false
  | .ok parsed =>
    eqIgnoreAsciiCase (url.scheme parsed) "http".toList && !url.urlKeepsCredentialsPrivate baseUrl

def unparseableUrl (error : String) : Text := ("<unparseable url: " ++ error ++ ">").toList

def urlWithoutUserinfo (baseUrl : Text) : Text :=
  match url.parse baseUrl with
  | .error e => unparseableUrl e
  | .ok parsed =>
    if (url.username parsed).isEmpty && (url.password parsed).isNone then baseUrl
    else
      match (url.setUsername parsed []).bind fun parsed => url.setPassword parsed none with
      | some parsed => url.toText parsed
      | none => "<url whose credentials cannot be removed>".toList

def displayUrl (u : υ) : Text :=
  let sanitized := (url.setUsername u []).getD u
  url.toText ((url.setPassword sanitized none).getD sanitized)

/-- The path of the address ends in a slash. -/
def normalized (u : υ) : υ :=
  if (url.path u).getLast? = some '/' then u else url.setPath u (url.path u ++ ['/'])

def displayAddress (address : Text) : Text :=
  match url.parse address with
  | .error e => unparseableUrl e
  | .ok parsed => url.displayUrl (url.normalized parsed)

theorem plainRemote_normalized (u : υ) : url.PlainRemote (url.normalized u) ↔ url.PlainRemote u := by
  unfold normalized
  split
  · exact Iff.rfl
  · simp only [PlainRemote, url.scheme_setPath, url.host_setPath]

/-- The address rule, on an address that parses. -/
theorem isPublicPlaintext_iff {baseUrl : Text} (h : url.parse baseUrl = .ok u) :
    url.isPublicPlaintext baseUrl = true ↔ url.PlainRemote u := by
  have hlower := url.scheme_lower h
  have hhttp : eqIgnoreAsciiCase (url.scheme u) "http".toList = true ↔
      url.scheme u = "http".toList := by
    have hconst : "http".toList.map Char.toLower = "http".toList := by decide
    simp only [eqIgnoreAsciiCase, hlower, hconst, decide_eq_true_eq]
  unfold isPublicPlaintext urlKeepsCredentialsPrivate PlainRemote
  simp only [h, Bool.and_eq_true, hhttp, Bool.not_eq_true']
  refine and_congr_right ?_
  intro hscheme
  have hnot : eqIgnoreAsciiCase "http".toList "https".toList = false := by decide
  have hsame : eqIgnoreAsciiCase "http".toList "http".toList = true := by decide
  simp only [hscheme, hnot, hsame]
  simp

theorem isPublicPlaintext_error {baseUrl : Text} (h : url.parse baseUrl = .error e) :
    url.isPublicPlaintext baseUrl = false := by
  simp [isPublicPlaintext, h]

end UrlCrate
end Aviso.Client
