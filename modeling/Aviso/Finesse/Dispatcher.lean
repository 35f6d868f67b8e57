import Aviso.Finesse.Frame

namespace Aviso.Finesse

/-- What a single line represents. -/
inductive LineKind where
  | blank
  | comment
  | field (name value : Text)
  deriving DecidableEq, Repr

/-- The bytes around the first colon, one leading space of the value removed.
A line without a colon is all name. -/
def splitField (line : List UInt8) : List UInt8 × List UInt8 :=
  match line.idxOf? colon with
  | some colonPos =>
    let value := line.drop (colonPos + 1)
    (line.take colonPos, if value.head? = some space then value.tail else value)
  | none => (line, [])

/-- `classify_line`. `String::from_utf8_lossy` is `Utf8.decode`. -/
def classifyLine (line : List UInt8) : LineKind :=
  if line.isEmpty then .blank
  else if line.head? = some colon then .comment
  else .field (Lib.Utf8.decode (splitField line).1) (Lib.Utf8.decode (splitField line).2)

/-- The event buffers between two blank lines, and the last event id. -/
structure Dispatcher where
  pendingEvent : Text
  pendingData : Text
  lastEventId : Option Text
  maxEventBytes : Nat
  deriving DecidableEq, Repr

namespace Dispatcher

def new (maxEventBytes : Nat) : Dispatcher := ⟨[], [], none, maxEventBytes⟩

/-- `parse_retry`: digits only, so no plus sign. -/
def parseRetry (value : Text) : Option Nat :=
  if value.isEmpty || !value.all Char.isDigit then none
  else if decimal value ≤ u64Max then some (decimal value) else none

/-- Processes one field. Only a `retry` field yields a frame here; a `data`
field that would take the event past its bound is refused. -/
def processField (d : Dispatcher) (name value : Text) :
    Except Overflow (Option Frame × Dispatcher) :=
  if name = "event".toList then .ok (none, { d with pendingEvent := value })
  else if name = "data".toList then
    if saturatingAdd (saturatingAdd d.pendingData.len value.len) 1 > d.maxEventBytes then
      .error (.event d.maxEventBytes)
    else .ok (none, { d with pendingData := d.pendingData ++ value ++ ['\n'] })
  else if name = "id".toList then
    if value.contains '\x00' then .ok (none, d)
    else .ok (none, { d with lastEventId := some value })
  else if name = "retry".toList then .ok ((parseRetry value).map .retry, d)
  else .ok (none, d)

/-- Dispatches the pending event on a blank line. -/
def dispatch (d : Dispatcher) : Option Frame × Dispatcher :=
  if d.pendingData.isEmpty then (none, { d with pendingEvent := [] })
  else
    let data := if d.pendingData.getLast? = some '\n' then d.pendingData.dropLast else d.pendingData
    (some (.message ⟨d.pendingEvent, data, d.lastEventId⟩),
      { d with pendingEvent := [], pendingData := [] })

end Dispatcher
end Aviso.Finesse
