import Aviso.Template.Engine

namespace Aviso.Template

open Watch (Notification TriggerError)

abbrev TemplateResult := Except TemplateError CompiledTemplate

structure WebhookConfig where
  urlTemplate : TemplateResult
  headers : List (Text × TemplateResult)
  bodyTemplate : Option TemplateResult

structure RenderedWebhook where
  url : Text
  headers : List (Text × Text)
  body : Text
  deriving DecidableEq, Repr

section Rendering

variable (toString : Json → Text) (n : Notification) (env : Text → Except TemplateErrorKind Text)

/-- One part of a webhook; a template error of any kind is the same trigger error. -/
def renderPart (sink : Sink) (part : TemplateResult) : Except TriggerError Text :=
  match part with
  | .error _ => .error .template
  | .ok t => (t.renderWithEnv toString n env sink).mapError fun _ => .template

/-- `render_webhook_parts_with_env`; `encode` is the notification's own JSON. -/
def renderWebhookParts (encode : Notification → Except TriggerError Text) (cfg : WebhookConfig) :
    Except TriggerError RenderedWebhook := do
  let url ← renderPart toString n env .url cfg.urlTemplate
  let headers ← cfg.headers.mapM fun (name, value) => do
    return (name, ← renderPart toString n env .raw value)
  let body ←
    match cfg.bodyTemplate with
    | some body => renderPart toString n env .raw body
    | none => encode n
  return ⟨url, headers, body⟩

end Rendering

/-- `body_string.replace("\x7b\x7b", "\\\x7b\x7b")`: every opener found from the left on is escaped. -/
def escaped : Text → Text
  | '\x7b' :: '\x7b' :: rest => '\\' :: '\x7b' :: '\x7b' :: escaped rest
  | c :: rest => c :: escaped rest
  | [] => []

def isContentType (name : Text) : Bool := name.map Char.toLower = "content-type".toList

structure TeamsConfig where
  urlTemplate : TemplateResult

def TeamsConfig.synthesiseWebhookConfig (cfg : TeamsConfig) (bodyString : Text) : WebhookConfig :=
  { urlTemplate := cfg.urlTemplate
    headers := [("Content-Type".toList, compile "application/json".toList)]
    bodyTemplate := some (compile (escaped bodyString)) }

structure PostConfig where
  urlTemplate : TemplateResult
  headers : List (Text × TemplateResult)

def PostConfig.synthesiseWebhookConfig (cfg : PostConfig) (bodyString : Text) : WebhookConfig :=
  { urlTemplate := cfg.urlTemplate
    headers :=
      if cfg.headers.any fun header => isContentType header.1 then cfg.headers
      else cfg.headers ++ [("Content-Type".toList, compile "application/cloudevents+json".toList)]
    bodyTemplate := some (compile (escaped bodyString)) }

end Aviso.Template
