import Aviso.Json
import Aviso.Lib.Table
import Aviso.Template.Engine

namespace Aviso.Cli
open Aviso.Template

/-- `serde_json::Error`. -/
structure JsonError where
  line : Nat
  column : Nat
  message : String
  deriving Repr

/-- A parameter as cut out of the command line: key, value, and whether it
was written with `:=`. -/
abbrev Entry := Text × Text × Bool

def pushKv (out : List Entry) (slice : Text) : Except String (List Entry) :=
  let slice := trim slice
  if slice.isEmpty then .ok out
  else if '=' ∉ slice then
    .error ("parameter parse: no `=` in entry `" ++ String.ofList slice ++
      "` (expected key=value or key:=JSON)")
  else
    let before := slice.takeWhile (· ≠ '=')
    let explicitJson := before.getLast? == some ':'
    let key := trim (if explicitJson then before.dropLast else before)
    if key.isEmpty then
      .error ("parameter parse: empty key in entry `" ++ String.ofList slice ++ "`")
    else
      let value := (slice.dropWhile (· ≠ '=')).tail
      .ok (out ++ [(key, value, explicitJson)])

/-- The variables of `split_parameters`; `slice` is `s[start..i]`. -/
structure Splitter where
  entries : List Entry := []
  depth : Nat := 0
  inString : Bool := false
  escape : Bool := false
  slice : Text := []
  i : Nat := 0
  deriving DecidableEq, Repr

/-- The next turn of the loop, with this character part of the slice. -/
def Splitter.take (st : Splitter) (ch : Char) : Splitter :=
  { st with slice := st.slice ++ [ch], i := st.i + ch.utf8Size }

/-- One turn of the loop of `split_parameters`. -/
def Splitter.step (s : Text) (st : Splitter) (ch : Char) : Except String Splitter :=
  let next := st.take ch
  if st.inString then
    if st.escape then .ok { next with escape := false }
    else if ch = '\\' then .ok { next with escape := true }
    else if ch = '"' then .ok { next with inString := false }
    else .ok next
  else if ch = '"' then .ok { next with inString := true }
  else if ch = '\x7b' ∨ ch = '[' then .ok { next with depth := saturatingSucc32 st.depth }
  else if ch = '\x7d' ∨ ch = ']' then
    if st.depth = 0 then
      .error ("parameter parse: unmatched closing brace at offset " ++ toString st.i ++ " in `" ++
        String.ofList s ++ "`")
    else .ok { next with depth := st.depth - 1 }
  else if ch = ',' ∧ st.depth = 0 then do
    let entries ← pushKv st.entries st.slice
    return { next with entries, slice := [] }
  else .ok next

/-- What follows the loop of `split_parameters`. -/
def Splitter.finish (s : Text) (st : Splitter) : Except String (List Entry) :=
  if st.inString then
    .error ("parameter parse: unclosed `\"` in `" ++ String.ofList s ++ "`")
  else if 0 < st.depth then
    .error ("parameter parse: unclosed `\x7b` (or `[`) in `" ++ String.ofList s ++ "`")
  else if st.slice.isEmpty then .ok st.entries
  else pushKv st.entries st.slice

/-- Splits comma-separated `key=value` and `key:=JSON` parameters. -/
def splitParameters (s : Text) : Except String (List Entry) :=
  s.foldlM (Splitter.step s) {} >>= Splitter.finish s

def stripOuterQuotes (value : Text) : Text :=
  if 2 ≤ value.len ∧ value.head? = some '"' ∧ value.getLast? = some '"' then value.tail.dropLast
  else value

section build
variable (fromStr : Text → Except JsonError Json)

def parseIdentifierValue (key value : Text) (explicitJson : Bool) : Except String Json :=
  let trimmed := trim value
  if explicitJson ∧ trimmed.isEmpty then
    .error ("parameter parse: identifier `" ++ String.ofList key ++
      ":=JSON` is empty; provide a valid JSON value such as null, 12, true, \"text\", [], or \x7b\x7d")
  else if explicitJson ∨ trimmed.head? = some '[' ∨ trimmed.head? = some '\x7b' then
    (fromStr trimmed).mapError fun error =>
      "parameter parse: identifier `" ++ String.ofList key ++ "` uses " ++
        (if explicitJson then ":=JSON" else "structured JSON syntax") ++
        " but is invalid JSON at line " ++ toString error.line ++ " column " ++
        toString error.column ++ ": " ++ error.message
  else .ok (.string (stripOuterQuotes value))

/-- The variables of `build_request_parts`. -/
structure RequestParts where
  eventType : Option Text := none
  identifier : Lib.Table Text Json := ∅
  payload : Option Json := none

/-- One turn of the loop of `build_request_parts`. -/
def RequestParts.add (parts : RequestParts) (entry : Entry) : Except String RequestParts :=
  let (key, value, explicitJson) := entry
  if key = "event".toList then
    if explicitJson then
      .error "parameter parse: `event` must use `event=<TYPE>`, not `event:=JSON`"
    else if parts.eventType.isSome then
      .error ("parameter parse: duplicate `event=` key. " ++
        "Each notify accepts exactly one event_type.")
    else if value.isEmpty then .error "parameter parse: `event=` requires a non-empty value"
    else .ok { parts with eventType := some value }
  else if key = "data".toList then
    if explicitJson then
      .error ("parameter parse: `data` already expects JSON; " ++
        "use `data=<JSON>`, not `data:=JSON`")
    else if parts.payload.isSome then
      .error ("parameter parse: duplicate `data=` key. Each notify accepts at most one payload; " ++
        "combine multiple values into a single JSON object or array.")
    else if value.isEmpty then
      .error ("parameter parse: `data=` is empty; use `data=\"\"` for an empty JSON string " ++
        "or `data=null` for an explicit null")
    else
      match fromStr value with
      | .ok parsed => .ok { parts with payload := some parsed }
      | .error e =>
        .error ("parameter parse: `data=` is not valid JSON at line " ++ toString e.line ++
          " column " ++ toString e.column ++ ": " ++ e.message)
  else if key ∈ parts.identifier then
    .error ("parameter parse: duplicate identifier key `" ++ String.ofList key ++
      "`. Each identifier may appear at most once.")
  else do
    let parsed ← parseIdentifierValue fromStr key value explicitJson
    return { parts with identifier := parts.identifier.insert key parsed }

def buildRequestParts (entries : List Entry) :
    Except String (Text × Lib.Table Text Json × Option Json) := do
  let parts ← entries.foldlM (RequestParts.add fromStr) {}
  match parts.eventType with
  | none => .error "parameter parse: `event=<TYPE>` is required"
  | some eventType => return (eventType, parts.identifier, parts.payload)

end build
end Aviso.Cli
