import Aviso.Finesse.Parser

namespace Aviso.Finesse

/-- What the parser stands for between two calls: a reader that takes the
stream one byte at a time and checks the bounds at every byte. -/
structure ByteReader where
  /-- Whether the bytes so far may still be a byte order mark. -/
  undecided : Bool
  /-- The bytes of the line being read. -/
  cur : List UInt8
  /-- Whether a CR ended the line and may be half of a CRLF. -/
  heldCr : Bool
  dispatcher : Dispatcher
  /-- Every frame the stream has produced, drained or not. -/
  frames : List Frame
  deriving DecidableEq, Repr

/-- How a reading ends early: the bound exceeded and the frames before it. -/
abbrev Stopped := Overflow × List Frame

namespace ByteReader

def start (limits : Limits) : ByteReader := ⟨true, [], false, .new limits.maxEventBytes, []⟩

/-- A reader at the start of a line, past the mark. -/
def fresh (d : Dispatcher) (frames : List Frame) : ByteReader := ⟨false, [], false, d, frames⟩

def completeLine (r : ByteReader) : Except Stopped ByteReader :=
  match Parser.acceptLine r.dispatcher r.frames r.cur with
  | .ok (d, frames) => .ok (fresh d frames)
  | .error overflow => .error (overflow, r.frames)

def readFresh (max : Nat) (r : ByteReader) (b : UInt8) : Except Stopped ByteReader :=
  if b = LF then r.completeLine
  else if b = CR then .ok { r with heldCr := true }
  else if r.cur.length + 1 > max then .error (.line max, r.frames)
  else .ok { r with cur := r.cur ++ [b] }

/-- Reads a byte of the stream proper, after any byte order mark. -/
def readContent (max : Nat) (r : ByteReader) (b : UInt8) : Except Stopped ByteReader :=
  if r.heldCr then do
    let r ← r.completeLine
    if b = LF then .ok r else r.readFresh max b
  else r.readFresh max b

/-- Gives up on a byte order mark: the bytes held are content after all. -/
def decide (max : Nat) (r : ByteReader) (bytes : List UInt8) : Except Stopped ByteReader :=
  bytes.foldlM (readContent max) (fresh r.dispatcher r.frames)

def readByte (max : Nat) (r : ByteReader) (b : UInt8) : Except Stopped ByteReader :=
  if r.undecided then
    if r.cur ++ [b] = BOM then .ok (fresh r.dispatcher r.frames)
    else if (r.cur ++ [b]).isPrefixOf BOM then .ok { r with cur := r.cur ++ [b] }
    else r.decide max (r.cur ++ [b])
  else r.readContent max b

/-- The end of the stream: a held CR ends its line, an unterminated line and
an undispatched event are dropped. -/
def finish (max : Nat) (r : ByteReader) : Except Stopped ByteReader := do
  let r ← if r.undecided then r.decide max r.cur else .ok r
  if r.heldCr then r.completeLine else .ok r

/-- The frames of a whole stream and the bound that cut it short, if any. -/
def readAll (limits : Limits) (bytes : List UInt8) : List Frame × Option Overflow :=
  match bytes.foldlM (readByte limits.maxLineBytes) (start limits) >>= finish limits.maxLineBytes with
  | .ok r => (r.frames, none)
  | .error (overflow, frames) => (frames, some overflow)

/-- The reading of a stream that may go on, or that ends here. -/
def readSoFar (limits : Limits) (bytes : List UInt8) (ended : Bool) : Except Stopped ByteReader :=
  bytes.foldlM (readByte limits.maxLineBytes) (start limits) >>= fun r =>
    if ended then r.finish limits.maxLineBytes else .ok r

/-- The frames of a stream so far. -/
def framesOf (limits : Limits) (bytes : List UInt8) (ended : Bool) : List Frame :=
  match readSoFar limits bytes ended with
  | .ok r => r.frames
  | .error (_, frames) => frames

end ByteReader

/-- One call on a parser. -/
inductive Op where
  | feed (chunk : List UInt8)
  | next
  | «end»
  deriving DecidableEq, Repr

/-- A parser with what its calls have returned so far. -/
structure Session where
  parser : Parser
  /-- Frames handed out by `nextFrame`, in order. -/
  yielded : List Frame
  /-- The first overflow returned by `feed` or `end`. -/
  overflow : Option Overflow
  deriving DecidableEq, Repr

namespace Session

def start (limits : Limits) : Session := ⟨.withLimits limits, [], none⟩

def note (s : Session) : Except Overflow Unit × Parser → Session
  | (.ok (), p) => { s with parser := p }
  | (.error overflow, p) => { s with parser := p, overflow := s.overflow.or (some overflow) }

def apply (s : Session) : Op → Session
  | .feed chunk => s.note (s.parser.feed chunk)
  | .end => s.note s.parser.end
  | .next => { s with
      parser := s.parser.nextFrame.2, yielded := s.yielded ++ s.parser.nextFrame.1.toList }

def run (limits : Limits) (ops : List Op) : Session := ops.foldl apply (start limits)

/-- Every frame of the session once its queue is drained. -/
def frames (s : Session) : List Frame := s.yielded ++ s.parser.queue

/-- A call of `feed` for each chunk and of `nextFrame` for each `none`, then `end`. -/
def calls (steps : List (Option (List UInt8))) : List Op :=
  steps.map (fun step => step.elim .next .feed) ++ [.end]

end Session
end Aviso.Finesse
