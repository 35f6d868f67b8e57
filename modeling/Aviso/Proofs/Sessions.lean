import Aviso.Proofs.Chunks
import Mathlib.Data.List.ReduceOption

namespace Aviso.Finesse
namespace Session

/-- A session and the reading of the bytes fed so far. -/
def Reads (max : Nat) (s : Session) : Except Stopped ByteReader → Prop
  | .ok r => s.overflow = none ∧ Stands s.yielded max s.parser r
  | .error (overflow, frames) =>
    s.overflow = some overflow ∧ s.parser.closed = true ∧ frames = s.frames

theorem reads_start (limits : Limits) :
    (start limits).Reads limits.maxLineBytes (.ok (ByteReader.start limits)) :=
  ⟨rfl, rfl, rfl, rfl, rfl, rfl, rfl, plain_nil, (fun h => by cases h), fun _ => ⟨rfl, Nat.zero_lt_succ _, rfl⟩, rfl, rfl⟩

theorem reads_pieces {s : Session} {max : Nat} {r : ByteReader} (ho : s.overflow = none)
    (h : Stands s.yielded max s.parser r) (chunk : List (List UInt8)) :
    (s.note (s.parser.feedPieces chunk)).Reads max
      (chunk.flatten.foldlM (ByteReader.readByte max) r) := by
  induction chunk generalizing s r with
  | nil => exact ⟨ho, h⟩
  | cons piece rest ih =>
    have htrack := Parser.feed_piece h piece
    rw [List.flatten_cons, List.foldlM_append, Parser.feedPieces]
    cases hread : piece.foldlM (ByteReader.readByte max) r with
    | error stopped =>
      obtain ⟨overflow, frames⟩ := stopped
      rw [hread] at htrack
      obtain ⟨hres, hq⟩ := htrack
      rw [error_bind, show _ = (_, _) from Prod.ext hres rfl]
      exact ⟨by simp [note, ho], rfl, hq⟩
    | ok r' =>
      rw [hread] at htrack
      obtain ⟨hres, hstands⟩ := htrack
      rw [ok_bind, show _ = (_, _) from Prod.ext hres rfl]
      exact ih (s := { s with parser := _ }) ho hstands

theorem reads_feed {s : Session} {max : Nat} {out : Except Stopped ByteReader}
    (h : s.Reads max out) (chunk : List UInt8) :
    (s.apply (.feed chunk)).Reads max (out >>= fun r => chunk.foldlM (ByteReader.readByte max) r) := by
  cases out with
  | error stopped =>
    obtain ⟨overflow, frames⟩ := stopped
    obtain ⟨ho, hc, hf⟩ := h
    simp only [apply, Parser.feed, hc, if_true, note, error_bind]
    exact ⟨ho, hc, hf⟩
  | ok r =>
    obtain ⟨ho, hstands⟩ := h
    have hpieces := reads_pieces ho hstands (pieces feedPieceBytes chunk)
    rw [pieces_flatten] at hpieces
    simpa [apply, Parser.feed, hstands.running, ok_bind] using hpieces

theorem frames_next (s : Session) : (s.apply .next).frames = s.frames := by
  unfold frames apply Parser.nextFrame
  cases h : s.parser.queue <;> simp [h]

theorem reads_next {s : Session} {max : Nat} {out : Except Stopped ByteReader}
    (h : s.Reads max out) : (s.apply .next).Reads max out := by
  cases out with
  | error stopped =>
    obtain ⟨ho, hc, hf⟩ := h
    refine ⟨ho, ?_, hf.trans (frames_next s).symm⟩
    simp only [apply, Parser.nextFrame]
    split <;> exact hc
  | ok r =>
    obtain ⟨ho, hstands⟩ := h
    have hframes : r.frames = (s.apply .next).frames :=
      hstands.frames.trans (frames_next s).symm
    refine ⟨ho, ?_⟩
    simp only [apply, Parser.nextFrame, frames] at hframes ⊢
    split
    · exact { hstands with frames := by simp [*] }
    · exact { hstands with frames := by simp [*] }

theorem reads_steps {s : Session} {max : Nat} {out : Except Stopped ByteReader}
    (h : s.Reads max out) (steps : List (Option (List UInt8))) :
    ((steps.map fun step => step.elim .next .feed).foldl apply s).Reads max
      (out >>= fun r => steps.reduceOption.flatten.foldlM (ByteReader.readByte max) r) := by
  induction steps generalizing s out with
  | nil => cases out <;> exact h
  | cons step steps ih =>
    cases step with
    | none => exact ih (reads_next h)
    | some chunk =>
      have hnext := ih (reads_feed h chunk)
      rw [bind_assoc] at hnext
      simp only [← List.foldlM_append] at hnext
      exact hnext

/-- A session of feeds, drains and one end yields what reading the bytes one at
a time yields. -/
theorem run_calls (limits : Limits) (steps : List (Option (List UInt8))) :
    ((run limits (calls steps)).frames, (run limits (calls steps)).overflow) =
      ByteReader.readAll limits steps.reduceOption.flatten := by
  have hreads := reads_steps (reads_start limits) steps
  rw [ok_bind] at hreads
  unfold run calls ByteReader.readAll
  rw [List.foldl_append, List.foldl_cons, List.foldl_nil]
  generalize (steps.map fun step => step.elim Op.next Op.feed).foldl apply (start limits) = s
    at hreads ⊢
  cases hread : steps.reduceOption.flatten.foldlM (ByteReader.readByte limits.maxLineBytes)
      (ByteReader.start limits) with
  | error stopped =>
    obtain ⟨overflow, frames⟩ := stopped
    rw [hread] at hreads
    obtain ⟨ho, hc, rfl⟩ := hreads
    simp [apply, Parser.end, hc, note, ho, error_bind, frames]
  | ok r =>
    rw [hread] at hreads
    obtain ⟨ho, hstands⟩ := hreads
    have hends := Parser.end_ends hstands
    rw [ok_bind]
    simp only [apply]
    generalize s.parser.end = res at hends
    obtain ⟨res, p⟩ := res
    cases hfin : r.finish limits.maxLineBytes with
    | error stopped =>
      obtain ⟨overflow, frames⟩ := stopped
      rw [hfin] at hends
      obtain ⟨rfl, rfl⟩ := hends
      simp [note, ho, Session.frames]
    | ok r' =>
      rw [hfin] at hends
      obtain ⟨rfl, hf⟩ := hends
      simp [note, ho, Session.frames, hf]

/-- A parser that has reported an overflow is closed. -/
def Abandons (s : Session) : Prop := s.overflow.isSome → s.parser.closed = true

theorem feedPieces_closes {p q : Parser} {chunk : List (List UInt8)} {overflow : Overflow}
    (h : p.feedPieces chunk = (.error overflow, q)) : q.closed = true := by
  induction chunk generalizing p with
  | nil => simp [Parser.feedPieces] at h
  | cons piece rest ih =>
    unfold Parser.feedPieces at h
    split at h
    · simp only [Prod.mk.injEq] at h
      rw [← h.2]
      rfl
    · exact ih h

theorem feed_closes {p q : Parser} {chunk : List UInt8} {overflow : Overflow}
    (h : p.feed chunk = (.error overflow, q)) : q.closed = true := by
  unfold Parser.feed at h
  split at h
  · simp at h
  · exact feedPieces_closes h

theorem end_closes {p q : Parser} {overflow : Overflow} (h : p.end = (.error overflow, q)) :
    q.closed = true := by
  unfold Parser.end at h
  split at h
  · simp at h
  · split at h
    · simp only [Prod.mk.injEq] at h
      rw [← h.2]
    · simp at h

theorem feed_closed {p : Parser} (h : p.closed = true) (chunk : List UInt8) :
    p.feed chunk = (.ok (), p) := by
  simp [Parser.feed, h]

theorem end_closed {p : Parser} (h : p.closed = true) : p.end = (.ok (), p) := by
  simp [Parser.end, h]

theorem note_abandons {s : Session} (h : s.Abandons) {res : Except Overflow Unit × Parser}
    (hclosed : s.parser.closed = true → res = (.ok (), s.parser))
    (herror : ∀ overflow q, res = (.error overflow, q) → q.closed = true) :
    (s.note res).Abandons := by
  obtain ⟨out, q⟩ := res
  cases out with
  | error overflow => exact fun _ => herror overflow q rfl
  | ok _ =>
    intro ho
    have hc := h ho
    obtain ⟨-, rfl⟩ := Prod.mk.inj (hclosed hc)
    exact hc

theorem nextFrame_closed (p : Parser) : p.nextFrame.2.closed = p.closed := by
  unfold Parser.nextFrame
  split <;> rfl

theorem apply_abandons {s : Session} (h : s.Abandons) (op : Op) : (s.apply op).Abandons := by
  cases op with
  | feed chunk =>
    exact note_abandons h (fun hc => feed_closed hc chunk) (fun _ _ he => feed_closes he)
  | «end» => exact note_abandons h (fun hc => end_closed hc) (fun _ _ he => end_closes he)
  | next => exact fun ho => (nextFrame_closed s.parser).trans (h ho)

theorem run_abandons (limits : Limits) (ops : List Op) : (run limits ops).Abandons := by
  have hall : ∀ s : Session, s.Abandons → (ops.foldl apply s).Abandons := by
    induction ops with
    | nil => exact fun s h => h
    | cons op ops ih => exact fun s h => ih _ (apply_abandons h op)
  exact hall _ (fun ho => by simp [start] at ho)

/-- However the bytes are cut into chunks and whenever frames are drained, the
frames and the first overflow are those of one feed of the whole stream, and
after an overflow `feed` and `end` change nothing. -/
theorem chunk_invariance (limits : Limits) :
    (∀ steps : List (Option (List UInt8)),
      (run limits (calls steps)).frames =
          (run limits (calls [some steps.reduceOption.flatten])).frames ∧
        (run limits (calls steps)).overflow =
          (run limits (calls [some steps.reduceOption.flatten])).overflow) ∧
      ∀ ops : List Op, (run limits ops).overflow.isSome →
        ∀ chunk, (run limits ops).parser.feed chunk = (.ok (), (run limits ops).parser) ∧
          (run limits ops).parser.end = (.ok (), (run limits ops).parser) ∧
          run limits (ops ++ [.feed chunk]) = run limits ops ∧
          run limits (ops ++ [.end]) = run limits ops := by
  refine ⟨fun steps => ?_, fun ops ho chunk => ?_⟩
  · have hone := run_calls limits [some steps.reduceOption.flatten]
    rw [show [some steps.reduceOption.flatten].reduceOption.flatten =
      steps.reduceOption.flatten by simp [List.reduceOption]] at hone
    have hsame := (run_calls limits steps).trans hone.symm
    exact ⟨congrArg Prod.fst hsame, congrArg Prod.snd hsame⟩
  · have hc := run_abandons limits ops ho
    have hfeed := feed_closed hc chunk
    have hend := end_closed hc
    refine ⟨hfeed, hend, ?_, ?_⟩
    · simp only [run, List.foldl_append, List.foldl_cons, List.foldl_nil] at hfeed ⊢
      rw [apply, hfeed]
      rfl
    · simp only [run, List.foldl_append, List.foldl_cons, List.foldl_nil] at hend ⊢
      rw [apply, hend]
      rfl

theorem chunk_invariance_overlong :
    (run ⟨1, 8⟩ [.feed [0x61, 0x62, 0x0A]]).overflow = some (.line 1) ∧
      (run ⟨1, 8⟩ [.feed [0x61, 0x62, 0x0A]]).parser.end =
        (.ok (), (run ⟨1, 8⟩ [.feed [0x61, 0x62, 0x0A]]).parser) := by
  have hover : (run ⟨1, 8⟩ [.feed [0x61, 0x62, 0x0A]]).overflow = some (.line 1) := by
    have hreads : (run ⟨1, 8⟩ [.feed [0x61, 0x62, 0x0A]]).Reads 1 (.error (.line 1, [])) :=
      reads_feed (reads_start ⟨1, 8⟩) [0x61, 0x62, 0x0A]
    exact hreads.1
  exact ⟨hover, ((chunk_invariance ⟨1, 8⟩).2 _ (by rw [hover]; rfl) []).2.1⟩

end Session
end Aviso.Finesse
