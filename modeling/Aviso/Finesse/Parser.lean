import Aviso.Finesse.LineSplitter
import Aviso.Finesse.Dispatcher

namespace Aviso.Finesse

/-- Most bytes copied into the buffer between two checks of the bounds. -/
def feedPieceBytes : Nat := 64 * 1024

structure Parser where
  lineSplitter : LineSplitter
  dispatcher : Dispatcher
  queue : List Frame
  closed : Bool
  deriving DecidableEq, Repr

/-- `slice::chunks`: consecutive pieces of `n` items, the last may be shorter. -/
def pieces (n : Nat) (xs : List α) : List (List α) :=
  match xs with
  | [] => []
  | x :: rest => (x :: rest.take (n - 1)) :: pieces n (rest.drop (n - 1))
termination_by xs.length
decreasing_by
  simp only [List.length_drop, List.length_cons]
  omega

theorem pieces_flatten (n : Nat) (xs : List α) : (pieces n xs).flatten = xs := by
  induction xs using pieces.induct n with
  | case1 => simp [pieces]
  | case2 x rest ih => rw [pieces, List.flatten_cons, ih]; simp

namespace LineSplitter

theorem drop_cons_lt {b : α} {rest xs : List α} {i : Nat} (h : b :: rest = xs.drop i) :
    i < xs.length := by
  rcases Nat.lt_or_ge i xs.length with hi | hi
  · exact hi
  · rw [List.drop_eq_nil_of_le hi] at h
    cases h

theorem checkBound_ok (s : LineSplitter) (n : Nat) (line : List UInt8) (s' : LineSplitter) :
    s.checkBound n ≠ (.ok (some line), s') := by
  unfold checkBound
  split <;> simp

theorem takeLine_some (h : takeLine s i j = (.ok (some line), s')) :
    line = s.buf.take i ∧ i ≤ s.maxLineBytes ∧
      s' = { s with buf := s.buf.drop j, scanFrom := 0 } := by
  unfold takeLine at h
  split at h
  · simp at h
  · simp only [Prod.mk.injEq, Except.ok.injEq, Option.some.injEq] at h
    exact ⟨h.1.symm, by omega, h.2.symm⟩

/-- A line leaves the buffer together with at least one terminator byte. -/
theorem scan_shrinks (h : scan s i rest = (.ok (some line), s')) (hr : rest = s.buf.drop i) :
    s'.buf.length < s.buf.length := by
  induction rest generalizing i with
  | nil => exact absurd h (checkBound_ok _ _ _ _)
  | cons b rest ih =>
    have hlen : i < s.buf.length := drop_cons_lt hr
    have hnext : rest = s.buf.drop (i + 1) := by rw [← List.drop_drop, ← hr]; rfl
    unfold scan at h
    split at h
    · obtain ⟨-, -, rfl⟩ := takeLine_some h
      simp; omega
    · split at h
      · cases rest with
        | cons c cs =>
          obtain ⟨-, -, rfl⟩ := takeLine_some h
          have hlen' : i + 1 < s.buf.length := drop_cons_lt hnext
          simp only [List.length_drop]
          split <;> omega
        | nil =>
          dsimp only at h
          split at h
          · obtain ⟨-, -, rfl⟩ := takeLine_some h
            simp; omega
          · exact absurd h (checkBound_ok _ _ _ _)
      · exact ih h hnext

theorem resolveBom_length (s : LineSplitter) : s.resolveBom.buf.length ≤ s.buf.length := by
  unfold resolveBom
  repeat' split
  all_goals simp

theorem nextLine_shrinks (h : nextLine s = (.ok (some line), s')) :
    s'.buf.length < s.buf.length :=
  Nat.lt_of_lt_of_le (scan_shrinks h rfl) (resolveBom_length s)

end LineSplitter

namespace Parser

def withLimits (limits : Limits) : Parser :=
  ⟨.new limits.maxLineBytes, .new limits.maxEventBytes, [], false⟩

/-- The body of the loop in `drain_lines`: what one line does to the event
buffers and to the queue of ready frames. -/
def acceptLine (d : Dispatcher) (queue : List Frame) (line : List UInt8) :
    Except Overflow (Dispatcher × List Frame) :=
  match classifyLine line with
  | .blank => .ok (d.dispatch.2, queue ++ d.dispatch.1.toList)
  | .comment => .ok (d, queue)
  | .field name value =>
    match d.processField name value with
    | .ok (frame, d') => .ok (d', queue ++ frame.toList)
    | .error overflow => .error overflow

/-- Takes every completed line out of the splitter. -/
def drainLines (p : Parser) : Except Overflow Unit × Parser :=
  match _h : p.lineSplitter.nextLine with
  | (.error overflow, s) => (.error overflow, { p with lineSplitter := s })
  | (.ok none, s) => (.ok (), { p with lineSplitter := s })
  | (.ok (some line), s) =>
    match acceptLine p.dispatcher p.queue line with
    | .error overflow => (.error overflow, { p with lineSplitter := s })
    | .ok (d, queue) => drainLines { p with lineSplitter := s, dispatcher := d, queue := queue }
termination_by p.lineSplitter.buf.length
decreasing_by exact LineSplitter.nextLine_shrinks _h

/-- Stops the parser after an overflow and releases what it held. -/
def abandon (p : Parser) : Parser :=
  { p with closed := true, lineSplitter := .new 0, dispatcher := .new 0 }

/-- The loop of `feed` over the pieces of a chunk. -/
def feedPieces (p : Parser) : List (List UInt8) → Except Overflow Unit × Parser
  | [] => (.ok (), p)
  | piece :: rest =>
    match { p with lineSplitter := p.lineSplitter.feed piece }.drainLines with
    | (.error overflow, p) => (.error overflow, p.abandon)
    | (.ok (), p) => p.feedPieces rest

def feed (p : Parser) (chunk : List UInt8) : Except Overflow Unit × Parser :=
  if p.closed then (.ok (), p) else p.feedPieces (pieces feedPieceBytes chunk)

def «end» (p : Parser) : Except Overflow Unit × Parser :=
  if p.closed then (.ok (), p)
  else
    match { p with lineSplitter := p.lineSplitter.end }.drainLines with
    | (.error overflow, p) => (.error overflow, { p.abandon with closed := true })
    | (.ok (), p) => (.ok (), { p with closed := true })

def nextFrame (p : Parser) : Option Frame × Parser :=
  match p.queue with
  | [] => (none, p)
  | frame :: rest => (some frame, { p with queue := rest })

end Parser
end Aviso.Finesse
