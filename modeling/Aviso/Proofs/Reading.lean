import Aviso.Proofs.Draining

namespace Aviso.Finesse

/-- The parser between two calls and the byte reader it stands for. -/
structure Stands (yielded : List Frame) (max : Nat) (p : Parser) (r : ByteReader) : Prop where
  running : p.closed = false
  live : p.lineSplitter.closed = false
  bound : p.lineSplitter.maxLineBytes = max
  mark : p.lineSplitter.bomState = if r.undecided then .pristine else .resolved
  buf : p.lineSplitter.buf = r.cur ++ if r.heldCr then [CR] else []
  scanned : p.lineSplitter.scanFrom = r.cur.length
  plain : Plain r.cur
  short : r.undecided = false → r.cur.length ≤ max
  partialMark : r.undecided = true → r.cur.isPrefixOf BOM ∧ r.cur.length < 3 ∧ r.heldCr = false
  dispatcher : p.dispatcher = r.dispatcher
  frames : r.frames = yielded ++ p.queue

/-- A drained parser agrees with a reading: it stands for the reader reached,
or it reports the same overflow with the same frames ready. -/
def Tracks (yielded : List Frame) (max : Nat) (res : Except Overflow Unit × Parser) :
    Except Stopped ByteReader → Prop
  | .ok r => res.1 = .ok () ∧ Stands yielded max res.2 r
  | .error (overflow, frames) => res.1 = .error overflow ∧ frames = yielded ++ res.2.queue

theorem ByteReader.readContent_held (max : Nat) (r : ByteReader) (b : UInt8)
    (hr : r.heldCr = true) (hb : b ≠ LF) :
    r.readContent max b = r.completeLine >>= fun r => r.readContent max b := by
  rw [readContent, if_pos hr]
  unfold completeLine
  cases Parser.acceptLine r.dispatcher r.frames r.cur with
  | error overflow => rfl
  | ok out => simp [ok_bind, hb, readContent, fresh]

namespace Parser

/-- A reader over `buf` that has looked at the first `i` bytes. -/
def scanning (buf : List UInt8) (i max : Nat) : LineSplitter := ⟨buf, i, max, .resolved, false⟩

theorem drainFrom_error {p : Parser} (h : p.lineSplitter.scan i rest = (.error overflow, s)) :
    p.drainFrom i rest = (.error overflow, { p with lineSplitter := s }) := by
  simp [drainFrom, h]

theorem drainFrom_none {p : Parser} (h : p.lineSplitter.scan i rest = (.ok none, s)) :
    p.drainFrom i rest = (.ok (), { p with lineSplitter := s }) := by
  simp [drainFrom, h]

/-- A line taken out of the buffer completes the reader's line, and the bytes
after it are read from a fresh line. -/
theorem tracks_line {p : Parser} {yielded : List Frame} {max i : Nat} {pre rest after : List UInt8}
    (hscan : p.lineSplitter.scan i rest = (.ok (some pre), scanning after 0 max))
    (hafter : ∀ d queue, Tracks yielded max
      ({ p with lineSplitter := scanning after 0 max, dispatcher := d, queue := queue }.drainFrom
        0 after)
      (after.foldlM (ByteReader.readContent max) (.fresh d (yielded ++ queue)))) :
    Tracks yielded max (p.drainFrom i rest)
      ((ByteReader.mk false pre false p.dispatcher (yielded ++ p.queue)).completeLine >>=
        fun r => after.foldlM (ByteReader.readContent max) r) := by
  have haccept := acceptLine_append p.dispatcher yielded p.queue pre
  simp only [drainFrom, hscan, ByteReader.completeLine, haccept]
  cases hline : acceptLine p.dispatcher p.queue pre with
  | error overflow => exact ⟨rfl, rfl⟩
  | ok out =>
    obtain ⟨d, queue⟩ := out
    dsimp only
    rw [drainLines_resolved _ rfl]
    exact hafter d queue

theorem take_scanning (pre rest after : List UInt8) (sf max j : Nat) (hl : pre.length ≤ max)
    (hj : (pre ++ rest).drop j = after) :
    (scanning (pre ++ rest) sf max).takeLine pre.length j =
      (.ok (some pre), scanning after 0 max) := by
  have hfit : ¬ pre.length > max := by omega
  simp [LineSplitter.takeLine, scanning, hfit, ← hj]

theorem check_scanning (pre rest : List UInt8) (sf max : Nat) (hl : pre.length ≤ max) :
    (scanning (pre ++ rest) sf max).checkBound pre.length =
      (.ok none, scanning (pre ++ rest) sf max) := by
  have hfit : ¬ pre.length > max := by omega
  simp [LineSplitter.checkBound, scanning, hfit]

/-- Draining a buffer is reading its bytes: `pre` has been scanned already and
holds no terminator. -/
theorem drainFrom_reads (n : Nat) (p : Parser) (yielded : List Frame) (max sf : Nat)
    (pre rest : List UInt8) (hn : rest.length = n) (hc : p.closed = false)
    (hs : p.lineSplitter = scanning (pre ++ rest) sf max) (hp : Plain pre) :
    Tracks yielded max (p.drainFrom pre.length rest)
      ((pre ++ rest).foldlM (ByteReader.readContent max)
        (.fresh p.dispatcher (yielded ++ p.queue))) := by
  induction n using Nat.strongRecOn generalizing p pre rest sf with
  | _ n ih =>
    rcases Nat.lt_or_ge max pre.length with hlong | hshort
    · have hscan := LineSplitter.scan_long p.lineSplitter pre.length rest (by rw [hs]; rfl)
        (by rw [hs]; exact hlong) (by rw [hs]; simp [scanning])
      have hmax : p.lineSplitter.maxLineBytes = max := by rw [hs]; rfl
      rw [hmax] at hscan
      have hread := ByteReader.read_long max p.dispatcher (yielded ++ p.queue) [] pre hp (by simp)
        (by simpa using hlong)
      rw [List.foldlM_append, ByteReader.fresh, hread, error_bind, drainFrom_error (Prod.ext hscan rfl)]
      exact ⟨rfl, rfl⟩
    · have hread := ByteReader.read_plain max p.dispatcher (yielded ++ p.queue) [] pre hp
        (by simpa using hshort)
      -- After `pre` both sides look at the first byte of `rest`.
      cases rest with
      | nil =>
        have hscan : p.lineSplitter.scan pre.length [] =
            (.ok none, scanning (pre ++ []) pre.length max) := by
          rw [hs, LineSplitter.scan]
          simpa [scanning] using check_scanning pre [] pre.length max hshort
        rw [drainFrom_none hscan, List.append_nil, ByteReader.fresh, hread]
        exact ⟨rfl, hc, rfl, rfl, rfl, by simp [scanning], rfl, hp, fun _ => hshort, by simp, rfl, rfl⟩
      | cons b after =>
        by_cases hlf : b = LF
        · have hscan : p.lineSplitter.scan pre.length (b :: after) =
              (.ok (some pre), scanning after 0 max) := by
            rw [LineSplitter.scan_cons, if_pos hlf, hs]
            exact take_scanning pre _ after sf max _ hshort (by simp)
          have hbyte : ByteReader.readContent max
              ⟨false, pre, false, p.dispatcher, yielded ++ p.queue⟩ b =
              (ByteReader.mk false pre false p.dispatcher (yielded ++ p.queue)).completeLine := by
            simp [ByteReader.readContent, ByteReader.readFresh, hlf]
          rw [List.foldlM_append, ByteReader.fresh, hread, ok_bind, List.foldlM_cons]
          simp only [List.nil_append, hbyte]
          refine tracks_line hscan ?_
          intro d queue
          exact ih after.length (by simp at hn; omega)
            { p with lineSplitter := scanning after 0 max, dispatcher := d, queue := queue }
            0 [] after rfl hc rfl plain_nil
        · by_cases hcr : b = CR
          · have hbyte : ByteReader.readContent max
                ⟨false, pre, false, p.dispatcher, yielded ++ p.queue⟩ b =
                .ok ⟨false, pre, true, p.dispatcher, yielded ++ p.queue⟩ := by
              simp [ByteReader.readContent, ByteReader.readFresh, hcr, LF, CR]
            rw [List.foldlM_append, ByteReader.fresh, hread, ok_bind, List.foldlM_cons]
            simp only [List.nil_append, hbyte, ok_bind]
            cases after with
            | nil =>
              have hscan : p.lineSplitter.scan pre.length [b] =
                  (.ok none, scanning (pre ++ [b]) pre.length max) := by
                rw [LineSplitter.scan_cons, if_neg hlf, if_pos hcr, hs]
                exact check_scanning pre [b] pre.length max hshort
              rw [drainFrom_none hscan]
              refine ⟨rfl, hc, rfl, rfl, rfl, ?_, rfl, hp, fun _ => hshort, by simp, rfl, rfl⟩
              simp [scanning, hcr]
            | cons c cs =>
              by_cases hclf : c = LF
              · have hscan : p.lineSplitter.scan pre.length (b :: c :: cs) =
                    (.ok (some pre), scanning cs 0 max) := by
                  rw [LineSplitter.scan_cons, if_neg hlf, if_pos hcr, hs]
                  exact take_scanning pre _ cs sf max _ hshort (by simp [hclf])
                have hsecond : ByteReader.readContent max
                    ⟨false, pre, true, p.dispatcher, yielded ++ p.queue⟩ c =
                    (ByteReader.mk false pre true p.dispatcher
                      (yielded ++ p.queue)).completeLine := by
                  simp only [ByteReader.readContent, hclf, if_true]
                  cases (ByteReader.mk false pre true p.dispatcher
                    (yielded ++ p.queue)).completeLine <;> rfl
                rw [List.foldlM_cons, hsecond]
                refine tracks_line hscan ?_
                intro d queue
                exact ih cs.length (by simp at hn; omega)
                  { p with lineSplitter := scanning cs 0 max, dispatcher := d, queue := queue }
                  0 [] cs rfl hc rfl plain_nil
              · have hscan : p.lineSplitter.scan pre.length (b :: c :: cs) =
                    (.ok (some pre), scanning (c :: cs) 0 max) := by
                  rw [LineSplitter.scan_cons, if_neg hlf, if_pos hcr, hs]
                  exact take_scanning pre _ (c :: cs) sf max _ hshort (by simp [hclf])
                have hsecond := ByteReader.readContent_held max
                  ⟨false, pre, true, p.dispatcher, yielded ++ p.queue⟩ c rfl hclf
                rw [List.foldlM_cons, hsecond, bind_assoc]
                refine tracks_line hscan ?_
                intro d queue
                exact ih (c :: cs).length (by simp at hn ⊢; omega)
                  { p with lineSplitter := scanning (c :: cs) 0 max, dispatcher := d, queue := queue }
                  0 [] (c :: cs) rfl hc rfl plain_nil
          · have hscan : p.drainFrom pre.length (b :: after) =
                p.drainFrom (pre ++ [b]).length after := by
              simp [drainFrom, LineSplitter.scan_cons, hlf, hcr]
            have hmore := ih after.length (by simp at hn; omega) p sf (pre ++ [b]) after rfl hc
              (by simpa using hs) (plain_append_one hp hlf hcr)
            simpa [hscan] using hmore

end Parser
end Aviso.Finesse
