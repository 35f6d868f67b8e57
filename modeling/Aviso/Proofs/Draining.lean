import Aviso.Finesse.ByteReader

namespace Aviso.Finesse

/-- No terminator occurs among these bytes. -/
def Plain (bytes : List UInt8) : Prop := ∀ b ∈ bytes, b ≠ LF ∧ b ≠ CR

theorem plain_nil : Plain [] := by simp [Plain]

theorem plain_append_one (h : Plain bytes) (hl : b ≠ LF) (hc : b ≠ CR) : Plain (bytes ++ [b]) := by
  intro c hm
  rcases List.mem_append.mp hm with hm | hm
  · exact h c hm
  · rw [List.mem_singleton.mp hm]
    exact ⟨hl, hc⟩

theorem ok_bind (a : α) (f : α → Except ε β) : (Except.ok a >>= f) = f a := rfl

theorem error_bind (e : ε) (f : α → Except ε β) : (Except.error e >>= f) = .error e := rfl

/-- Frames already drained play no part in accepting a line. -/
theorem acceptLine_append (d : Dispatcher) (pre queue : List Frame) (line : List UInt8) :
    Parser.acceptLine d (pre ++ queue) line =
      match Parser.acceptLine d queue line with
      | .ok (d', queue') => .ok (d', pre ++ queue')
      | .error overflow => .error overflow := by
  unfold Parser.acceptLine
  cases classifyLine line with
  | blank => simp
  | comment => rfl
  | field name value =>
    dsimp only
    cases d.processField name value with
    | error overflow => rfl
    | ok out => simp

namespace ByteReader

/-- Reading bytes without a terminator only lengthens the line, up to the bound. -/
theorem read_plain (max : Nat) (d : Dispatcher) (frames : List Frame) (pre bytes : List UInt8)
    (hp : Plain bytes) (hl : (pre ++ bytes).length ≤ max) :
    bytes.foldlM (readContent max) ⟨false, pre, false, d, frames⟩ =
      .ok ⟨false, pre ++ bytes, false, d, frames⟩ := by
  induction bytes generalizing pre with
  | nil => simp; rfl
  | cons b bytes ih =>
    obtain ⟨hlf, hcr⟩ := hp b (by simp)
    have hfit : ¬ pre.length + 1 > max := by simp at hl; omega
    have hstep : readContent max ⟨false, pre, false, d, frames⟩ b =
        .ok ⟨false, pre ++ [b], false, d, frames⟩ := by
      simp [readContent, readFresh, hlf, hcr, hfit]
    rw [List.foldlM_cons, hstep, ok_bind, ih (pre ++ [b]) (fun c hc => hp c (by simp [hc]))
      (by simpa using hl)]
    simp

/-- A line that outgrows the bound stops the reader wherever it ends. -/
theorem read_long (max : Nat) (d : Dispatcher) (frames : List Frame) (pre bytes : List UInt8)
    (hp : Plain bytes) (hpre : pre.length ≤ max) (hl : (pre ++ bytes).length > max) :
    bytes.foldlM (readContent max) ⟨false, pre, false, d, frames⟩ =
      .error (.line max, frames) := by
  induction bytes generalizing pre with
  | nil => simp at hl; omega
  | cons b bytes ih =>
    obtain ⟨hlf, hcr⟩ := hp b (by simp)
    rw [List.foldlM_cons]
    by_cases hfit : pre.length + 1 > max
    · have hstep : readContent max ⟨false, pre, false, d, frames⟩ b =
          .error (.line max, frames) := by
        simp [readContent, readFresh, hlf, hcr, hfit]
      rw [hstep, error_bind]
    · have hstep : readContent max ⟨false, pre, false, d, frames⟩ b =
          .ok ⟨false, pre ++ [b], false, d, frames⟩ := by
        simp [readContent, readFresh, hlf, hcr, hfit]
      rw [hstep, ok_bind]
      exact ih (pre ++ [b]) (fun c hc => hp c (by simp [hc])) (by simp; omega) (by simpa using hl)

end ByteReader

namespace LineSplitter

/-- The scan passes over bytes that are not terminators. -/
theorem scan_plain (s : LineSplitter) (i : Nat) (bytes rest : List UInt8) (hp : Plain bytes) :
    s.scan i (bytes ++ rest) = s.scan (i + bytes.length) rest := by
  induction bytes generalizing i with
  | nil => rfl
  | cons b bytes ih =>
    obtain ⟨hlf, hcr⟩ := hp b (by simp)
    rw [List.cons_append, scan_cons, if_neg hlf, if_neg hcr, ih _ (fun c hc => hp c (by simp [hc]))]
    congr 1
    simp; omega

/-- Past the bound every way the scan can end reports the overflow. -/
theorem scan_long (s : LineSplitter) (i : Nat) (rest : List UInt8)
    (hr : s.bomState = .resolved) (hi : i > s.maxLineBytes) (hb : i + rest.length = s.buf.length) :
    (s.scan i rest).1 = .error (.line s.maxLineBytes) := by
  induction rest generalizing i with
  | nil =>
    have hlen : s.buf.length > s.maxLineBytes := by simp at hb; omega
    simp [scan, checkBound, hr, hlen]
  | cons b rest ih =>
    rw [scan_cons]
    split
    · simp [takeLine, hi]
    · split
      · cases rest with
        | cons c cs => simp [takeLine, hi]
        | nil =>
          dsimp only
          split
          · simp [takeLine, hi]
          · simp [checkBound, hr, hi]
      · exact ih (i + 1) (by omega) (by simp at hb; omega)

end LineSplitter

namespace Parser

/-- `drainLines` with its first scan already at index `i`. -/
def drainFrom (p : Parser) (i : Nat) (rest : List UInt8) : Except Overflow Unit × Parser :=
  match p.lineSplitter.scan i rest with
  | (.error overflow, s) => (.error overflow, { p with lineSplitter := s })
  | (.ok none, s) => (.ok (), { p with lineSplitter := s })
  | (.ok (some line), s) =>
    match acceptLine p.dispatcher p.queue line with
    | .error overflow => (.error overflow, { p with lineSplitter := s })
    | .ok (d, queue) => drainLines { p with lineSplitter := s, dispatcher := d, queue := queue }

theorem drainLines_eq (p : Parser) :
    p.drainLines = { p with lineSplitter := p.lineSplitter.resolveBom }.drainFrom
      p.lineSplitter.resolveBom.scanFrom
      (p.lineSplitter.resolveBom.buf.drop p.lineSplitter.resolveBom.scanFrom) := by
  have hnext : p.lineSplitter.nextLine = p.lineSplitter.resolveBom.scan
      p.lineSplitter.resolveBom.scanFrom
      (p.lineSplitter.resolveBom.buf.drop p.lineSplitter.resolveBom.scanFrom) := rfl
  rw [drainLines, drainFrom]
  split
  · rename_i h
    rw [hnext] at h
    simp only [h]
  · rename_i h
    rw [hnext] at h
    simp only [h]
  · rename_i h
    rw [hnext] at h
    cases haccept : acceptLine p.dispatcher p.queue _ with
    | error overflow => simp only [h, haccept]
    | ok out => simp only [h, haccept]

theorem drainLines_resolved (p : Parser) (hr : p.lineSplitter.bomState = .resolved) :
    p.drainLines =
      p.drainFrom p.lineSplitter.scanFrom (p.lineSplitter.buf.drop p.lineSplitter.scanFrom) := by
  have hb : p.lineSplitter.resolveBom = p.lineSplitter := by simp [LineSplitter.resolveBom, hr]
  rw [drainLines_eq, hb]

end Parser
end Aviso.Finesse
