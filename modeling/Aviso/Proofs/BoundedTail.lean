import Aviso.Lib.Tail
import Aviso.Watch.Tail

namespace Aviso.Watch

/-- The buffer holds the last `cap` bytes of a stream and has never held more. -/
structure Ring.Keeps (cap : Nat) (stream : List UInt8) (ring : Ring) : Prop where
  bytes : ring.bytes = stream.rtake cap
  bounded : ∀ content ∈ ring.history, content.length ≤ cap

section Push

variable {cap : Nat} {stream slice : List UInt8} {ring : Ring}

theorem Ring.new_keeps (cap : Nat) : Ring.new.Keeps cap [] := by
  refine ⟨by simp [Ring.new], fun content hmem => ?_⟩
  obtain rfl := List.mem_singleton.mp hmem
  exact Nat.zero_le _

theorem Ring.bounded_put {next : List UInt8} (h : ∀ content ∈ ring.history, content.length ≤ cap)
    (hnext : next.length ≤ cap) : ∀ content ∈ (ring.put next).history, content.length ≤ cap := by
  intro content hmem
  rcases List.mem_append.mp hmem with hold | hnew
  · exact h content hold
  · obtain rfl := List.mem_singleton.mp hnew
    exact hnext

/-- No read makes the eviction underflow or run past either end, whatever its
size and however full the buffer is. -/
theorem Ring.Keeps.push (h : ring.Keeps cap stream) (slice : List UInt8) :
    ∃ ring', ring.push cap slice = some ring' ∧ ring'.Keeps cap (stream ++ slice) := by
  have hlen : ring.bytes.length ≤ cap := by
    rw [h.bytes, Lib.length_rtake]
    omega
  by_cases hover : ring.bytes.length + slice.length > cap
  · by_cases hlong : slice.length ≥ cap
    · have hkept : (slice.drop (slice.length - cap)).length ≤ cap := by
        rw [List.length_drop]
        omega
      refine ⟨ring.clear.extendFromSlice (slice.drop (slice.length - cap)), ?_, ?_, ?_⟩
      · simp [Ring.push, checkedSub, sliceFrom, hover, hlong]
      · exact (Lib.rtake_append_long hlong).symm
      · exact bounded_put (bounded_put h.bounded (Nat.zero_le _)) hkept
    · have hroom : ring.bytes.length + slice.length - cap ≤ ring.bytes.length := by omega
      refine ⟨(ring.put (ring.bytes.drop (ring.bytes.length + slice.length - cap))).extendFromSlice slice,
        ?_, ?_, ?_⟩
      · have hcap : cap ≤ ring.bytes.length + slice.length := by omega
        simp [Ring.push, checkedSub, Ring.drain, hover, hlong, hcap, hroom]
      · have hdrop : ring.bytes.drop (ring.bytes.length + slice.length - cap) =
            stream.rtake (cap - slice.length) := by
          have hbound := hroom
          have hsum := hover
          rw [h.bytes] at hbound hsum ⊢
          rw [Lib.drop_rtake _ _ _ hbound]
          congr 1
          omega
        rw [Lib.rtake_append_short (by omega), ← hdrop]
        rfl
      · refine bounded_put (bounded_put h.bounded ?_) ?_
        · rw [List.length_drop]
          omega
        · show (ring.bytes.drop _ ++ slice).length ≤ cap
          rw [List.length_append, List.length_drop]
          omega
  · have hfits : (ring.bytes ++ slice).length ≤ cap := by
      rw [List.length_append]
      omega
    refine ⟨ring.extendFromSlice slice, ?_, ?_, bounded_put h.bounded hfits⟩
    · simp [Ring.push, hover]
    · have hroom : (stream.rtake cap).length ≤ cap - slice.length := by
        rw [← h.bytes]
        omega
      rw [Lib.rtake_append_short (by omega), Lib.rtake_narrow hroom (Nat.sub_le _ _), ← h.bytes]
      rfl

end Push

section Loop

variable {cap : Nat} {stream : List UInt8} {ring : Ring}

/-- The bytes a loop takes before it is left. -/
def taken : List (Turn ε) → List UInt8
  | [] => []
  | .bytes slice :: turns => slice ++ taken turns
  | .leave _ :: _ => []

/-- Why a loop is left. -/
def leftFor : List (Turn ε) → Option ε
  | [] => none
  | .bytes _ :: turns => leftFor turns
  | .leave reason :: _ => some reason

theorem drainLoop_keeps (h : ring.Keeps cap stream) (turns : List (Turn ε)) :
    ∃ ring', drainLoop cap ring turns = some (ring', leftFor turns) ∧
      ring'.Keeps cap (stream ++ taken turns) := by
  induction turns generalizing ring stream with
  | nil => exact ⟨ring, rfl, by rw [taken, List.append_nil]; exact h⟩
  | cons turn turns ih =>
    cases turn with
    | leave reason => exact ⟨ring, rfl, by rw [taken, List.append_nil]; exact h⟩
    | bytes slice =>
      obtain ⟨mid, hpush, hmid⟩ := h.push slice
      obtain ⟨ring', hloop, hring'⟩ := ih hmid
      refine ⟨ring', ?_, ?_⟩
      · rw [drainLoop, hpush]
        exact hloop
      · rw [taken, ← List.append_assoc]
        exact hring'

end Loop

/-- The bytes a reader delivers up to the end of its stream or its first error. -/
def delivered : List ReadResult → List UInt8
  | .ok (byte :: bytes) :: reads => (byte :: bytes) ++ delivered reads
  | _ => []

/-- The bytes of a body up to its end or its first error. -/
def received : List ChunkResult → List UInt8
  | .ok (some bytes) :: chunks => bytes ++ received chunks
  | _ => []

/-- How a body ends, if it has. -/
def bodyEnd : List ChunkResult → Option BodyEnd
  | [] => none
  | .ok (some _) :: chunks => bodyEnd chunks
  | .ok none :: _ => some .eof
  | .error timedOut :: _ => some (.failed timedOut)

theorem taken_reads (reads : List ReadResult) : taken (reads.map readTurn) = delivered reads := by
  induction reads with
  | nil => rfl
  | cons read reads ih =>
    match read with
    | .error e => rfl
    | .ok [] => rfl
    | .ok (byte :: bytes) => simp only [List.map_cons, readTurn, List.length_cons,
        Nat.add_eq_zero_iff, one_ne_zero, and_false, if_false, taken, delivered, ih]

theorem taken_chunks (chunks : List ChunkResult) :
    taken (chunks.map chunkTurn) = received chunks ∧
      leftFor (chunks.map chunkTurn) = bodyEnd chunks := by
  induction chunks with
  | nil => exact ⟨rfl, rfl⟩
  | cons chunk chunks ih =>
    match chunk with
    | .error timedOut => exact ⟨rfl, rfl⟩
    | .ok none => exact ⟨rfl, rfl⟩
    | .ok (some bytes) => exact ⟨by simp only [List.map_cons, chunkTurn, taken, received, ih.1], ih.2⟩

/-- Whatever the cut into reads, the command trigger's buffer ends with the last
`cap` bytes of the stream and never holds more, and the webhook's response tail
is the same function of its chunks. No subtraction underflows and no range is out
of bounds, so the drains never fail. -/
theorem bounded_tail :
    (∀ cap reads, ∃ ring left, drainToRing cap reads = some (ring, left) ∧
      ring.bytes = (delivered reads).rtake cap ∧
      ring.bytes.length = min cap (delivered reads).length ∧
      ∀ content ∈ ring.history, content.length ≤ cap) ∧
    ∀ status chunks,
      (∃ ring, bodyRing chunks = some (ring, bodyEnd chunks) ∧
        ring.bytes = (received chunks).rtake ringCap ∧
        ring.bytes.length = min ringCap (received chunks).length ∧
        ∀ content ∈ ring.history, content.length ≤ ringCap) ∧
      captureBodyTail status chunks =
        some ((bodyEnd chunks).map (·.drain status ((received chunks).rtake ringCap))) := by
  refine ⟨fun cap reads => ?_, fun status chunks => ?_⟩
  · obtain ⟨ring, hloop, hkeeps⟩ := drainLoop_keeps (Ring.new_keeps cap) (reads.map readTurn)
    rw [List.nil_append, taken_reads] at hkeeps
    refine ⟨ring, _, hloop, hkeeps.bytes, ?_, hkeeps.bounded⟩
    rw [hkeeps.bytes, Lib.length_rtake]
  · obtain ⟨ring, hloop, hkeeps⟩ := drainLoop_keeps (Ring.new_keeps ringCap) (chunks.map chunkTurn)
    rw [List.nil_append, (taken_chunks chunks).1] at hkeeps
    rw [(taken_chunks chunks).2] at hloop
    refine ⟨⟨ring, hloop, hkeeps.bytes, ?_, hkeeps.bounded⟩, ?_⟩
    · rw [hkeeps.bytes, Lib.length_rtake]
    · rw [captureBodyTail, bodyRing, hloop, ← hkeeps.bytes]
      rfl

end Aviso.Watch
