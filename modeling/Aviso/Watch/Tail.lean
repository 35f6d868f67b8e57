import Aviso.Basics

namespace Aviso.Watch

/-- `RING_CAP`, the same in both triggers. -/
def ringCap : Nat := 4096

/-- A buffer that is to keep the last bytes of a stream, and every content it has had. -/
structure Ring where
  bytes : List UInt8
  history : List (List UInt8)
  deriving DecidableEq, Repr

namespace Ring

/-- `Vec::with_capacity`. -/
def new : Ring := ⟨[], [[]]⟩

def put (r : Ring) (bytes : List UInt8) : Ring := ⟨bytes, r.history ++ [bytes]⟩

def clear (r : Ring) : Ring := r.put []

def extendFromSlice (r : Ring) (slice : List UInt8) : Ring := r.put (r.bytes ++ slice)

/-- `ring.drain(..count)`, which panics past the end. -/
def drain (r : Ring) (count : Nat) : Option Ring :=
  if count ≤ r.bytes.length then some (r.put (r.bytes.drop count)) else none

end Ring

/-- A `usize` subtraction, which panics below zero. -/
def checkedSub (a b : Nat) : Option Nat := if b ≤ a then some (a - b) else none

/-- `&slice[start..]`, which panics past the end. -/
def sliceFrom (slice : List UInt8) (start : Nat) : Option (List UInt8) :=
  if start ≤ slice.length then some (slice.drop start) else none

/-- What both drain loops do with the bytes of one read. -/
def Ring.push (cap : Nat) (ring : Ring) (slice : List UInt8) : Option Ring :=
  let n := slice.length
  if ring.bytes.length + n > cap then
    if n ≥ cap then do
      let start ← checkedSub n cap
      let kept ← sliceFrom slice start
      return ring.clear.extendFromSlice kept
    else do
      let overflow ← checkedSub (ring.bytes.length + n) cap
      let ring ← ring.drain overflow
      return ring.extendFromSlice slice
  else some (ring.extendFromSlice slice)

/-- One answer of a reader: bytes to keep, or a reason to leave the loop. -/
inductive Turn (ε : Type) where
  | bytes (slice : List UInt8)
  | leave (reason : ε)
  deriving DecidableEq, Repr

/-- The loop over the answers so far: the buffer, and why the loop was left if it was. -/
def drainLoop (cap : Nat) (ring : Ring) : List (Turn ε) → Option (Ring × Option ε)
  | [] => some (ring, none)
  | .bytes slice :: turns => (ring.push cap slice).bind fun ring => drainLoop cap ring turns
  | .leave reason :: _ => some (ring, some reason)

/-- What `reader.read` returns: the bytes it put in the buffer, none at the end of the stream. -/
abbrev ReadResult := Except Text (List UInt8)

/-- The arms of `drain_to_ring`'s match. -/
def readTurn : ReadResult → Turn Unit
  | .ok slice => if slice.length = 0 then .leave () else .bytes slice
  | .error _ => .leave ()

/-- The command trigger's `drain_to_ring`. -/
def drainToRing (cap : Nat) (reads : List ReadResult) : Option (Ring × Option Unit) :=
  drainLoop cap .new (reads.map readTurn)

/-- What `response.chunk()` returns; an error keeps whether it was a timeout. -/
abbrev ChunkResult := Except Bool (Option (List UInt8))

/-- How a response body ended. -/
inductive BodyEnd where
  | eof
  | failed (timedOut : Bool)
  deriving DecidableEq, Repr

/-- The arms of `capture_body_tail`'s match. -/
def chunkTurn : ChunkResult → Turn BodyEnd
  | .ok (some bytes) => .bytes bytes
  | .ok none => .leave .eof
  | .error timedOut => .leave (.failed timedOut)

inductive BodyDrain where
  | complete (status : Nat) (bodyTail : Text)
  | partialNoTimeout (status : Nat) (bodyTail : Text)
  | timeout
  deriving DecidableEq, Repr

/-- What is returned with what is in the buffer when the body ends. -/
def BodyEnd.drain (status : Nat) (ring : List UInt8) : BodyEnd → BodyDrain
  | .eof => .complete status (Lib.Utf8.decode ring)
  | .failed true => .timeout
  | .failed false => .partialNoTimeout status (Lib.Utf8.decode ring)

/-- The buffer of `capture_body_tail` over the chunks so far. -/
def bodyRing (chunks : List ChunkResult) : Option (Ring × Option BodyEnd) :=
  drainLoop ringCap .new (chunks.map chunkTurn)

/-- The webhook trigger's `capture_body_tail`: what it returned, if it did yet. -/
def captureBodyTail (status : Nat) (chunks : List ChunkResult) : Option (Option BodyDrain) :=
  (bodyRing chunks).map fun (ring, ending) => ending.map (·.drain status ring.bytes)

end Aviso.Watch
