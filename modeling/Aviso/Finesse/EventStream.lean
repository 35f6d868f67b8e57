import Aviso.Finesse.LineSplitter
import Aviso.Finesse.Dispatcher
import Aviso.Lib.Lines

namespace Aviso.Finesse.EventStream

/-- The stream without one leading byte order mark. -/
def stripBom (bytes : List UInt8) : List UInt8 :=
  if BOM.isPrefixOf bytes then bytes.drop BOM.length else bytes

/-- The buffers of the event-stream interpretation. -/
structure Buffers where
  eventType : Text
  data : Text
  lastEventId : Option Text
  deriving DecidableEq, Repr

namespace Buffers

def start : Buffers := ⟨[], [], none⟩

/-- A blank line: dispatches the event if it has data, and resets the event
and data buffers either way. -/
def blank (b : Buffers) : Buffers × Option Frame :=
  ({ b with eventType := [], data := [] },
    if b.data = [] then none
    else some (.message ⟨b.eventType,
      if b.data.getLast? = some '\n' then b.data.dropLast else b.data, b.lastEventId⟩))

/-- The number a text of digits stands for, from its last digit on. -/
def number (value : Text) : Nat :=
  value.reverse.foldr (fun c n => (c.toNat - '0'.toNat) + 10 * n) 0

/-- The reconnection time a `retry` value asks for. -/
def retryTime (value : Text) : Option Nat :=
  if !value.isEmpty && value.all Char.isDigit then
    if number value ≤ u64Max then some (number value) else none
  else none

def field (b : Buffers) (name value : Text) : Buffers × Option Frame :=
  if name = "event".toList then ({ b with eventType := value }, none)
  else if name = "data".toList then ({ b with data := b.data ++ value ++ ['\n'] }, none)
  else if name = "id".toList then
    (if '\x00' ∈ value then b else { b with lastEventId := some value }, none)
  else if name = "retry".toList then (b, (retryTime value).map .retry)
  else (b, none)

/-- A value loses one leading space. -/
def stripSpace (value : Text) : Text := if value.head? = some ' ' then value.tail else value

/-- One line of decoded text. -/
def line (b : Buffers) (text : Text) : Buffers × Option Frame :=
  if text = [] then b.blank
  else if text.head? = some ':' then (b, none)
  else b.field (text.takeWhile (· ≠ ':')) (stripSpace ((text.dropWhile (· ≠ ':')).drop 1))

/-- The buffers and the frames after the lines given. -/
def lines (b : Buffers) : List Text → Buffers × List Frame
  | [] => (b, [])
  | text :: rest =>
    (((b.line text).1.lines rest).1, (b.line text).2.toList ++ ((b.line text).1.lines rest).2)

end Buffers

/-- The complete lines of a stream: decoded whole, then split. What follows the
last line end is dropped. -/
def textLines (bytes : List UInt8) : List Text :=
  (Lib.splitLines '\r' '\n' [] (Lib.Utf8.decode (stripBom bytes))).1

/-- The frames of a whole stream, as the event-stream format defines them. -/
def frames (bytes : List UInt8) : List Frame := (Buffers.start.lines (textLines bytes)).2

/-- Every line of the stream and every event built up on the way fits the limits. -/
structure Within (limits : Limits) (bytes : List UInt8) : Prop where
  lines : ∀ line ∈ (Lib.splitLines CR LF [] (stripBom bytes)).1, line.length ≤ limits.maxLineBytes
  tail : (Lib.splitLines CR LF [] (stripBom bytes)).2.length ≤ limits.maxLineBytes
  events : ∀ k, (Buffers.start.lines ((textLines bytes).take k)).1.data.len ≤ limits.maxEventBytes

end Aviso.Finesse.EventStream
