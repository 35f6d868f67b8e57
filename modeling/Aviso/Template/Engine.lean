import Aviso.Template.Shell
import Aviso.Template.Url
import Aviso.Watch.Wire

namespace Aviso.Template

open Watch (Notification)

/-- `char::is_whitespace`. -/
def isWhitespace (c : Char) : Bool :=
  (0x9 ≤ c.toNat && c.toNat ≤ 0xD) || (0x2000 ≤ c.toNat && c.toNat ≤ 0x200A) ||
    [0x20, 0x85, 0xA0, 0x1680, 0x2028, 0x2029, 0x202F, 0x205F, 0x3000].contains c.toNat

/-- `str::trim`. -/
def trim (text : Text) : Text :=
  ((text.dropWhile isWhitespace).reverse.dropWhile isWhitespace).reverse

/-- `str::strip_prefix`. -/
def stripPrefix (lead : String) (text : Text) : Option Text :=
  if lead.toList.isPrefixOf text then some (text.drop lead.length) else none

/-- `str::split` at a dot. -/
def splitDots (text : Text) : List Text := text.splitOn '.'

inductive TemplateErrorKind where
  | missing
  | envNotSet
  | envNotUnicode
  | badSyntax
  | valueInUrlAuthority
  | valueAfterUnsupportedShellSyntax
  deriving DecidableEq, Repr

structure TemplateError where
  rawTemplate : Text
  field : Text
  kind : TemplateErrorKind
  deriving DecidableEq, Repr

/-- What the rendered text is used for. -/
inductive Sink where
  | raw
  | shell
  | url
  deriving DecidableEq, Repr

inductive Segment where
  | literal (s : Text)
  | notificationPath (path : List Text)
  | envVar (name : Text)
  deriving DecidableEq, Repr

structure CompiledTemplate where
  raw : Text
  segments : List Segment
  deriving DecidableEq, Repr

def syntaxError (template : Text) (label : String) : TemplateError := ⟨template, label.toList, .badSyntax⟩

/-- The end of `parse_expression`: what the text between the braces names. -/
def parseExpression (template expr : Text) : Except TemplateError Segment :=
  match stripPrefix "notification" (trim expr) with
  | some [] => .ok (.notificationPath [])
  | some ('.' :: path) =>
    if (splitDots path).any List.isEmpty then .error (syntaxError template "empty_path_segment")
    else .ok (.notificationPath (splitDots path))
  | some _ => .error (syntaxError template "unknown_namespace")
  | none =>
    match stripPrefix "env." (trim expr) with
    | some [] => .error (syntaxError template "empty_path_segment")
    | some name => .ok (.envVar name)
    | none => .error (syntaxError template "unknown_namespace")

/-- The literal segment of a buffer, unless it is empty. -/
def flush (literalBuf : Text) : List Segment := if literalBuf.isEmpty then [] else [.literal literalBuf]

/-- The loop of `compile`; `expr` is the buffer of `parse_expression` while it reads. -/
def compileFrom (template : Text) (segments : List Segment) (literalBuf : Text) :
    Option Text → List Char → Except TemplateError (List Segment)
  | none, [] => .ok (segments ++ flush literalBuf)
  | none, '\\' :: '{' :: '{' :: chars => compileFrom template segments (literalBuf ++ ['{', '{']) none chars
  | none, '\\' :: '{' :: chars => compileFrom template segments (literalBuf ++ ['\\', '{']) none chars
  | none, '{' :: '{' :: chars => compileFrom template (segments ++ flush literalBuf) [] (some []) chars
  | none, c :: chars => compileFrom template segments (literalBuf ++ [c]) none chars
  | some _, [] => .error (syntaxError template "unclosed_braces")
  | some _, '\\' :: _ => .error (syntaxError template "escape_inside_expr")
  | some expr, '}' :: '}' :: chars =>
    match parseExpression template expr with
    | .error e => .error e
    | .ok segment => compileFrom template (segments ++ [segment]) literalBuf none chars
  | some expr, c :: chars => compileFrom template segments literalBuf (some (expr ++ [c])) chars

def compile (template : Text) : Except TemplateError CompiledTemplate :=
  (compileFrom template [] [] none template).map (CompiledTemplate.mk template)

/-- The label of a notification path. -/
def fieldName (path : List Text) : Text :=
  if path.isEmpty then "notification".toList
  else "notification.".toList ++ List.intercalate ['.'] path

def walkPath (root : Json) : List Text → Option Json
  | [] => some root
  | segment :: path => (root.get segment).bind fun v => walkPath v path

/-- `serde_json::to_value` of a notification; the envelope is not part of it. -/
def toValue (n : Notification) : Json :=
  .object [("event_type".toList, .string n.eventType), ("sequence".toList, .number (.posInt n.sequence)),
    ("identifier".toList, .object n.identifier), ("payload".toList, n.payload)]

/-- A value as text; `toString` is `serde_json`'s compact form. -/
def renderValue (toString : Json → Text) : Json → Text
  | .string s => s
  | .null => "null".toList
  | other => toString other

/-- The variables of the loop of `render_with_env`. -/
structure Rendering where
  shell : ShellTracker
  url : UrlTracker
  out : Text

namespace Rendering

def new : Rendering := ⟨.new, .new, []⟩

/-- The operator's own text is inserted verbatim. -/
def verbatim (r : Rendering) (sink : Sink) (text : Text) : Rendering :=
  { shell := if sink = .shell then r.shell.advance text else r.shell
    url := if sink = .url then r.url.advance text else r.url
    out := r.out ++ text }

/-- A notification value is neutralised for the sink. -/
def value (r : Rendering) (raw : Text) (sink : Sink) (path : List Text) (rendered : Text) :
    Except TemplateError Rendering :=
  match sink with
  | .raw => .ok { r with out := r.out ++ rendered }
  | .shell =>
    match r.shell.unsupported with
    | some construct => .error ⟨raw, construct.toList, .valueAfterUnsupportedShellSyntax⟩
    | none =>
      let quoted := r.shell.quote rendered
      .ok { r with shell := r.shell.advanceValue quoted, out := r.out ++ quoted }
  | .url =>
    if !r.url.inPath then .error ⟨raw, fieldName path, .valueInUrlAuthority⟩
    else
      let encoded := percentEncode rendered
      .ok { r with url := r.url.advance encoded, out := r.out ++ encoded }

end Rendering

/-- The body of the loop of `render_with_env`. -/
def renderSegment (toString : Json → Text) (root : Json) (env : Text → Except TemplateErrorKind Text)
    (sink : Sink) (raw : Text) (r : Rendering) : Segment → Except TemplateError Rendering
  | .literal s => .ok (r.verbatim sink s)
  | .notificationPath path =>
    match walkPath root path with
    | none => .error ⟨raw, fieldName path, .missing⟩
    | some v => r.value raw sink path (renderValue toString v)
  | .envVar name =>
    match env name with
    | .error kind => .error ⟨raw, name, kind⟩
    | .ok text => .ok (r.verbatim sink text)

def CompiledTemplate.renderWithEnv (toString : Json → Text) (t : CompiledTemplate) (n : Notification)
    (env : Text → Except TemplateErrorKind Text) (sink : Sink) : Except TemplateError Text :=
  (t.segments.foldlM (renderSegment toString (toValue n) env sink t.raw) .new).map Rendering.out

end Aviso.Template
