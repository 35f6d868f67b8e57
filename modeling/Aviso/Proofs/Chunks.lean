import Aviso.Proofs.ByteOrderMark

namespace Aviso.Finesse
namespace LineSplitter

theorem resolveBom_found {s : LineSplitter} (hs : s.bomState = .pristine) (h : BOM <+: s.buf) :
    s.resolveBom = { s with buf := s.buf.drop 3, scanFrom := 0, bomState := .resolved } := by
  have hlen : BOM.length ≤ s.buf.length := h.length_le
  have hbom : BOM.isPrefixOf s.buf = true := List.isPrefixOf_iff_prefix.mpr h
  unfold resolveBom
  rw [hs, if_neg (by decide), if_pos hlen, if_pos hbom]
  rfl

theorem resolveBom_missed {s : LineSplitter} (hs : s.bomState = .pristine) (h : ¬ BOM <+: s.buf)
    (h' : ¬ s.buf <+: BOM) : s.resolveBom = { s with bomState := .resolved } := by
  simp [resolveBom, hs, h, h']

theorem resolveBom_waiting {s : LineSplitter} (hs : s.bomState = .pristine)
    (h : s.buf <+: BOM) (hl : s.buf.length < 3) (hc : s.closed = false) : s.resolveBom = s := by
  have hlen : ¬ BOM.length ≤ s.buf.length := by simp [BOM]; omega
  have hpre : s.buf.isPrefixOf BOM = true := List.isPrefixOf_iff_prefix.mpr h
  unfold resolveBom
  rw [hs, if_neg (by decide), if_neg hlen, hpre, hc]
  rfl

theorem resolveBom_closed {s : LineSplitter} (hs : s.bomState = .pristine)
    (hl : s.buf.length < 3) (hc : s.closed = true) :
    s.resolveBom = { s with bomState := .resolved } := by
  have hlen : ¬ BOM.length ≤ s.buf.length := by simp [BOM]; omega
  simp [resolveBom, hs, hlen, hc]

end LineSplitter

theorem Plain.prefix_bom {bytes : List UInt8} (h : bytes <+: BOM) : Plain bytes := by
  intro b hb
  have hm := h.subset hb
  simp only [BOM, List.mem_cons, List.not_mem_nil, or_false] at hm
  rcases hm with rfl | rfl | rfl <;> decide

namespace Parser

/-- Draining a splitter whose mark is undecided reads its buffer from the
start of the stream. -/
theorem drain_pristine {p : Parser} (yielded : List Frame) {max : Nat} (cur piece : List UInt8)
    (hc : p.closed = false)
    (hs : p.lineSplitter = ⟨cur ++ piece, cur.length, max, .pristine, false⟩)
    (hp : Plain cur) :
    Tracks yielded max p.drainLines
      (ByteReader.marked max p.dispatcher (yielded ++ p.queue) (cur ++ piece)) := by
  have hbuf : p.lineSplitter.buf = cur ++ piece := by rw [hs]
  have hpristine : p.lineSplitter.bomState = .pristine := by rw [hs]
  rw [drainLines_eq]
  by_cases hbom : BOM <+: cur ++ piece
  · rw [LineSplitter.resolveBom_found hpristine (hbuf ▸ hbom), hs]
    simp only [ByteReader.marked, List.isPrefixOf_iff_prefix, hbom, if_true]
    exact drainFrom_reads _ { p with lineSplitter := scanning ((cur ++ piece).drop 3) 0 max }
      yielded max 0 [] _ rfl hc rfl plain_nil
  · by_cases hpre : cur ++ piece <+: BOM
    · have hne : cur ++ piece ≠ BOM := fun h => hbom (h ▸ List.prefix_refl _)
      have hl := ByteReader.proper_prefix_length hpre hne
      have hplain := Plain.prefix_bom hpre
      rw [LineSplitter.resolveBom_waiting hpristine (hbuf ▸ hpre) (hbuf ▸ hl) (by rw [hs]), hs]
      have hscan : p.lineSplitter.scan cur.length piece =
          (.ok none, ⟨cur ++ piece, (cur ++ piece).length, max, .pristine, false⟩) := by
        have hpass := LineSplitter.scan_plain p.lineSplitter cur.length piece []
          (fun b hb => hplain b (by simp [hb]))
        rw [List.append_nil] at hpass
        rw [hpass, hs]
        simp [LineSplitter.scan, LineSplitter.checkBound]
      have hdrop : (cur ++ piece).drop cur.length = piece := by simp
      rw [hs] at hscan
      simp only [hdrop, ByteReader.marked, List.isPrefixOf_iff_prefix, hbom, hpre, if_false, if_true]
      rw [drainFrom_none hscan]
      refine ⟨rfl, hc, rfl, rfl, rfl, by simp, rfl, hplain, by simp, fun _ => ?_, rfl, rfl⟩
      exact ⟨List.isPrefixOf_iff_prefix.mpr hpre, hl, rfl⟩
    · rw [LineSplitter.resolveBom_missed hpristine (hbuf ▸ hbom) (hbuf ▸ hpre), hs]
      have hdrop : (cur ++ piece).drop cur.length = piece := by simp
      simp only [ByteReader.marked, List.isPrefixOf_iff_prefix, hbom, hpre, if_false, hdrop]
      exact drainFrom_reads _ { p with lineSplitter := scanning (cur ++ piece) cur.length max }
        yielded max cur.length cur piece rfl hc rfl hp

/-- One piece fed and drained is its bytes read one at a time. -/
theorem feed_piece {p : Parser} {yielded : List Frame} {max : Nat} {r : ByteReader}
    (h : Stands yielded max p r) (piece : List UInt8) :
    Tracks yielded max { p with lineSplitter := p.lineSplitter.feed piece }.drainLines
      (piece.foldlM (ByteReader.readByte max) r) := by
  obtain ⟨undecided, cur, heldCr, d, frames⟩ := r
  obtain ⟨hrun, hlive, hbound, hmark, hbuf, hscan, hplain, hshort, hpartial, hd, hframes⟩ := h
  dsimp only at hmark hbuf hscan hplain hshort hpartial hd hframes
  cases undecided with
  | true =>
    obtain ⟨hpre, hl, rfl⟩ := hpartial rfl
    have hsplit : p.lineSplitter.feed piece = ⟨cur ++ piece, cur.length, max, .pristine, false⟩ := by
      simp [LineSplitter.feed, hlive, hbuf, hscan, hbound, hmark]
    have hdrain := drain_pristine yielded (p := { p with
      lineSplitter := p.lineSplitter.feed piece }) cur piece hrun hsplit hplain
    rw [ByteReader.read_mark max d frames cur piece (List.isPrefixOf_iff_prefix.mp hpre) hl]
    simpa [hd, hframes] using hdrain
  | false =>
    let held : List UInt8 := if heldCr then [CR] else []
    have hsplit : p.lineSplitter.feed piece =
        scanning (cur ++ (held ++ piece)) cur.length max := by
      simp [LineSplitter.feed, hlive, hbuf, hscan, hbound, hmark, scanning, held]
    have hdrain := drainFrom_reads _ { p with lineSplitter := p.lineSplitter.feed piece }
      yielded max cur.length cur (held ++ piece) rfl hrun hsplit hplain
    have hheld : (cur ++ held).foldlM (ByteReader.readContent max) (.fresh d frames) =
        .ok ⟨false, cur, heldCr, d, frames⟩ := by
      rw [List.foldlM_append, ByteReader.fresh,
        ByteReader.read_plain max d frames [] cur hplain (by simpa using hshort rfl)]
      cases heldCr with
      | false => rfl
      | true => simp [held, ByteReader.readContent, ByteReader.readFresh, LF, CR, ok_bind]
    rw [drainLines_resolved _ (by simp [hsplit, scanning])]
    rw [ByteReader.read_decided max _ piece rfl]
    rw [← List.append_assoc, List.foldlM_append] at hdrain
    simp only [hd, ← hframes, hheld, ok_bind] at hdrain
    simpa [hsplit, scanning, hd] using hdrain

/-- A parser that has been drained for the last time agrees with the end of a
reading. -/
def Ends (yielded : List Frame) (res : Except Overflow Unit × Parser) :
    Except Stopped ByteReader → Prop
  | .ok r => res.1 = .ok () ∧ r.frames = yielded ++ res.2.queue
  | .error (overflow, frames) => res.1 = .error overflow ∧ frames = yielded ++ res.2.queue

/-- At the end of the stream an unterminated line is only checked, not taken. -/
theorem drain_unterminated {p : Parser} (cur : List UInt8) (max : Nat)
    (hs : p.lineSplitter.resolveBom = ⟨cur, cur.length, max, .resolved, true⟩) :
    p.drainLines = (if cur.length > max then .error (.line max) else .ok (),
      { p with lineSplitter := ⟨cur, cur.length, max, .resolved, true⟩ }) := by
  rw [drainLines_eq, hs]
  by_cases hl : cur.length > max
  · simp [drainFrom, LineSplitter.scan, LineSplitter.checkBound, hl]
  · simp [drainFrom, LineSplitter.scan, LineSplitter.checkBound, hl]

/-- At the end of the stream a held CR ends its line. -/
theorem drain_held {p : Parser} (cur : List UInt8) (max : Nat) (hl : cur.length ≤ max)
    (hs : p.lineSplitter = ⟨cur ++ [CR], cur.length, max, .resolved, true⟩) :
    ∃ s, p.drainLines =
      match acceptLine p.dispatcher p.queue cur with
      | .error overflow => (.error overflow, { p with lineSplitter := s })
      | .ok (d, queue) =>
        (.ok (), { p with lineSplitter := s, dispatcher := d, queue := queue }) := by
  refine ⟨⟨[], 0, max, .resolved, true⟩, ?_⟩
  have hfit : ¬ cur.length > max := by omega
  have hscan : p.lineSplitter.scan cur.length [CR] =
      (.ok (some cur), ⟨[], 0, max, .resolved, true⟩) := by
    rw [hs, LineSplitter.scan_cons]
    simp [LF, CR, LineSplitter.takeLine, hfit]
  have hdrop : p.lineSplitter.buf.drop p.lineSplitter.scanFrom = [CR] := by simp [hs]
  have hfrom : p.lineSplitter.scanFrom = cur.length := by rw [hs]
  rw [drainLines_resolved _ (by rw [hs]), hdrop, hfrom]
  simp only [drainFrom, hscan]
  cases acceptLine p.dispatcher p.queue cur with
  | error overflow => rfl
  | ok out =>
    obtain ⟨d, queue⟩ := out
    dsimp only
    rw [drain_unterminated [] max rfl]
    rfl

theorem end_drained {p : Parser} {yielded : List Frame} {max : Nat} {r : ByteReader}
    (h : Stands yielded max p r) :
    Ends yielded { p with lineSplitter := p.lineSplitter.end }.drainLines (r.finish max) := by
  obtain ⟨undecided, cur, heldCr, d, frames⟩ := r
  obtain ⟨hrun, hlive, hbound, hmark, hbuf, hscan, hplain, hshort, hpartial, hd, hframes⟩ := h
  dsimp only at hmark hbuf hscan hplain hshort hpartial hd hframes
  cases undecided with
  | true =>
    obtain ⟨hpre, hl, rfl⟩ := hpartial rfl
    have hbuf' : p.lineSplitter.buf = cur := by simpa using hbuf
    have hres : p.lineSplitter.end.resolveBom = ⟨cur, cur.length, max, .resolved, true⟩ := by
      rw [LineSplitter.resolveBom_closed (s := p.lineSplitter.end) hmark (by simpa [LineSplitter.end, hbuf'] using hl) rfl]
      simp [LineSplitter.end, hbuf', hscan, hbound]
    rw [drain_unterminated cur max hres]
    rcases Nat.lt_or_ge max cur.length with hlong | hfit
    · have hread := ByteReader.read_long max d frames [] cur hplain (by simp) (by simpa using hlong)
      have hfinish : ByteReader.finish max ⟨true, cur, false, d, frames⟩ =
          .error (.line max, frames) := by
        simp [ByteReader.finish, ByteReader.decide, ByteReader.fresh, hread, error_bind]
      rw [hfinish]
      exact ⟨by simp [hlong], hframes⟩
    · have hread := ByteReader.read_plain max d frames [] cur hplain (by simpa using hfit)
      have hfinish : ByteReader.finish max ⟨true, cur, false, d, frames⟩ =
          .ok ⟨false, cur, false, d, frames⟩ := by
        simp [ByteReader.finish, ByteReader.decide, ByteReader.fresh, hread, ok_bind]
      rw [hfinish]
      exact ⟨by simp [hfit], hframes⟩
  | false =>
    cases heldCr with
    | false =>
      have hres : p.lineSplitter.end.resolveBom = ⟨cur, cur.length, max, .resolved, true⟩ := by
        simp [LineSplitter.resolveBom, LineSplitter.end, hbuf, hscan, hbound, hmark]
      rw [drain_unterminated cur max hres]
      exact ⟨by simp [hshort rfl], hframes⟩
    | true =>
      have hsplit : p.lineSplitter.end = ⟨cur ++ [CR], cur.length, max, .resolved, true⟩ := by
        simp [LineSplitter.end, hbuf, hscan, hbound, hmark]
      obtain ⟨s, hdrain⟩ := drain_held (p := { p with lineSplitter := p.lineSplitter.end })
        cur max (hshort rfl) hsplit
      rw [hdrain]
      have haccept := acceptLine_append d yielded p.queue cur
      simp only [ByteReader.finish, ByteReader.completeLine, hframes, haccept, hd, ok_bind]
      cases acceptLine d p.queue cur with
      | error overflow => exact ⟨rfl, rfl⟩
      | ok out => exact ⟨rfl, rfl⟩

theorem end_ends {p : Parser} {yielded : List Frame} {max : Nat} {r : ByteReader}
    (h : Stands yielded max p r) : Ends yielded p.end (r.finish max) := by
  have hdrained := end_drained h
  have hno : ¬ p.closed = true := by rw [h.running]; decide
  unfold Parser.end
  rw [if_neg hno]
  generalize { p with lineSplitter := p.lineSplitter.end }.drainLines = res at hdrained ⊢
  obtain ⟨res, q⟩ := res
  cases res <;> exact hdrained

end Parser
end Aviso.Finesse
