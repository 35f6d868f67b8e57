import Aviso.Finesse.Frame

namespace Aviso.Finesse

def BOM : List UInt8 := [0xEF, 0xBB, 0xBF]

inductive BomState where
  | pristine
  | resolved
  deriving DecidableEq, Repr

/-- The incremental line splitter. Bytes of `buf` before `scanFrom` were
examined by an earlier `nextLine` that found no terminator. -/
structure LineSplitter where
  buf : List UInt8
  scanFrom : Nat
  maxLineBytes : Nat
  bomState : BomState
  closed : Bool
  deriving DecidableEq, Repr

namespace LineSplitter

def new (maxLineBytes : Nat) : LineSplitter := ⟨[], 0, maxLineBytes, .pristine, false⟩

def feed (s : LineSplitter) (chunk : List UInt8) : LineSplitter :=
  if s.closed then s else { s with buf := s.buf ++ chunk }

def «end» (s : LineSplitter) : LineSplitter := { s with closed := true }

/-- Strips one leading byte order mark, once enough bytes are there to tell. -/
def resolveBom (s : LineSplitter) : LineSplitter :=
  if s.bomState = .resolved then s
  else if BOM.length ≤ s.buf.length then
    if BOM.isPrefixOf s.buf then
      { s with buf := s.buf.drop BOM.length, scanFrom := 0, bomState := .resolved }
    else { s with bomState := .resolved }
  else if !s.buf.isPrefixOf BOM then { s with bomState := .resolved }
  else if s.closed then { s with bomState := .resolved }
  else s

/-- The bound on bytes held without a terminator. It waits while the mark is
unresolved, as the bytes held may then not be content. -/
def checkBound (s : LineSplitter) (contentLen : Nat) :
    Except Overflow (Option (List UInt8)) × LineSplitter :=
  if s.bomState = .resolved ∧ contentLen > s.maxLineBytes then
    (.error (.line s.maxLineBytes), s)
  else (.ok none, s)

/-- Removes a completed line from the buffer, unless it is too long. -/
def takeLine (s : LineSplitter) (lineEnd drainThrough : Nat) :
    Except Overflow (Option (List UInt8)) × LineSplitter :=
  if lineEnd > s.maxLineBytes then (.error (.line s.maxLineBytes), s)
  else (.ok (some (s.buf.take lineEnd)), { s with buf := s.buf.drop drainThrough, scanFrom := 0 })

/-- The loop of `nextLine`, from index `i` with the bytes `buf[i..]` ahead. -/
def scan (s : LineSplitter) : Nat → List UInt8 →
    Except Overflow (Option (List UInt8)) × LineSplitter
  | _, [] => { s with scanFrom := s.buf.length }.checkBound s.buf.length
  | i, b :: rest =>
    if b = LF then s.takeLine i (i + 1)
    else if b = CR then
      match rest with
      | c :: _ => s.takeLine i (if c = LF then i + 2 else i + 1)
      | [] =>
        if s.closed then s.takeLine i (i + 1)
        -- The CR is held: the next byte decides whether it is half of a CRLF.
        else { s with scanFrom := i }.checkBound i
    else s.scan (i + 1) rest

theorem scan_cons (s : LineSplitter) (i : Nat) (b : UInt8) (rest : List UInt8) :
    s.scan i (b :: rest) =
      if b = LF then s.takeLine i (i + 1)
      else if b = CR then
        match rest with
        | c :: _ => s.takeLine i (if c = LF then i + 2 else i + 1)
        | [] =>
          if s.closed then s.takeLine i (i + 1)
          else { s with scanFrom := i }.checkBound i
      else s.scan (i + 1) rest := by
  rw [scan.eq_def]

def nextLine (s : LineSplitter) : Except Overflow (Option (List UInt8)) × LineSplitter :=
  let s := s.resolveBom
  s.scan s.scanFrom (s.buf.drop s.scanFrom)

end LineSplitter
end Aviso.Finesse
