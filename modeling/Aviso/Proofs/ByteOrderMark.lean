import Aviso.Proofs.Reading

namespace Aviso.Finesse
namespace ByteReader

theorem readFresh_decided {max : Nat} {r r' : ByteReader} {b : UInt8}
    (h : r.readFresh max b = .ok r') (hr : r.undecided = false) : r'.undecided = false := by
  unfold readFresh completeLine at h
  repeat' split at h
  all_goals simp only [Except.ok.injEq, reduceCtorEq] at h
  all_goals subst h
  all_goals first | rfl | exact hr

theorem readContent_decided {max : Nat} {r r' : ByteReader} {b : UInt8}
    (h : r.readContent max b = .ok r') (hr : r.undecided = false) : r'.undecided = false := by
  unfold readContent at h
  split at h
  · unfold completeLine at h
    split at h
    · simp only [ok_bind] at h
      split at h
      · simp only [Except.ok.injEq] at h
        subst h
        rfl
      · exact readFresh_decided h rfl
    · simp [error_bind] at h
  · exact readFresh_decided h hr

theorem fold_decided {max : Nat} {r r' : ByteReader} {bytes : List UInt8}
    (h : bytes.foldlM (readContent max) r = .ok r') (hr : r.undecided = false) :
    r'.undecided = false := by
  induction bytes generalizing r with
  | nil => cases h; exact hr
  | cons b bytes ih =>
    rw [List.foldlM_cons] at h
    cases hb : r.readContent max b with
    | error stopped => rw [hb] at h; cases h
    | ok next => rw [hb] at h; exact ih h (readContent_decided hb hr)

/-- Past the mark every byte is content. -/
theorem read_decided (max : Nat) (r : ByteReader) (bytes : List UInt8)
    (hr : r.undecided = false) :
    bytes.foldlM (readByte max) r = bytes.foldlM (readContent max) r := by
  induction bytes generalizing r with
  | nil => rfl
  | cons b bytes ih =>
    have hb : r.readByte max b = r.readContent max b := by simp [readByte, hr]
    rw [List.foldlM_cons, List.foldlM_cons, hb]
    cases h : r.readContent max b with
    | error stopped => rfl
    | ok r' => exact ih r' (readContent_decided h hr)

/-- What a stream that begins with these bytes, and no more, has led to while
its mark was being looked for. -/
def marked (max : Nat) (d : Dispatcher) (frames : List Frame) (bytes : List UInt8) :
    Except Stopped ByteReader :=
  if BOM.isPrefixOf bytes then (bytes.drop 3).foldlM (readContent max) (fresh d frames)
  else if bytes.isPrefixOf BOM then .ok ⟨true, bytes, false, d, frames⟩
  else bytes.foldlM (readContent max) (fresh d frames)

theorem proper_prefix_length {bytes : List UInt8} (h : bytes <+: BOM) (hne : bytes ≠ BOM) :
    bytes.length < 3 := by
  have hle := h.length_le
  rcases Nat.lt_or_ge bytes.length 3 with hlt | hge
  · exact hlt
  · exact absurd (h.eq_of_length (by simp [BOM] at hle ⊢; omega)) hne

/-- The mark is found, missed or still possible after the same bytes, however
they arrive. -/
theorem read_mark (max : Nat) (d : Dispatcher) (frames : List Frame) (cur bytes : List UInt8)
    (hcur : cur <+: BOM) (hl : cur.length < 3) :
    bytes.foldlM (readByte max) ⟨true, cur, false, d, frames⟩ =
      marked max d frames (cur ++ bytes) := by
  induction bytes generalizing cur with
  | nil =>
    have hno : ¬ BOM <+: cur := fun h => by have := h.length_le; simp [BOM] at this; omega
    simp [marked, hno, hcur]
    rfl
  | cons b bytes ih =>
    have hcons : cur ++ b :: bytes = (cur ++ [b]) ++ bytes := by simp
    rw [List.foldlM_cons, hcons]
    by_cases hbom : cur ++ [b] = BOM
    · have hstep : readByte max ⟨true, cur, false, d, frames⟩ b = .ok (fresh d frames) := by
        simp [readByte, hbom]
      have hdrop : (BOM ++ bytes).drop 3 = bytes := rfl
      rw [hstep, ok_bind, read_decided max _ _ rfl, hbom]
      simp [marked, hdrop]
    · by_cases hpre : cur ++ [b] <+: BOM
      · have hstep : readByte max ⟨true, cur, false, d, frames⟩ b =
            .ok ⟨true, cur ++ [b], false, d, frames⟩ := by
          simp [readByte, hbom, hpre]
        rw [hstep, ok_bind]
        exact ih (cur ++ [b]) hpre (proper_prefix_length hpre hbom)
      · have hstep : readByte max ⟨true, cur, false, d, frames⟩ b =
            (cur ++ [b]).foldlM (readContent max) (fresh d frames) := by
          simp [readByte, hbom, hpre, decide]
        have hmiss : ¬ BOM <+: (cur ++ [b]) ++ bytes := fun h =>
          hpre (List.prefix_of_prefix_length_le (List.prefix_append _ _) h (by simp [BOM]; omega))
        have hdone : ¬ (cur ++ [b]) ++ bytes <+: BOM := fun h =>
          hpre ((List.prefix_append _ _).trans h)
        rw [hstep]
        simp only [marked, List.isPrefixOf_iff_prefix, hmiss, hdone, if_false]
        rw [List.foldlM_append (l := cur ++ [b])]
        cases hfold : (cur ++ [b]).foldlM (readContent max) (fresh d frames) with
        | error stopped => rfl
        | ok r => exact read_decided max r bytes (fold_decided hfold rfl)

end ByteReader
end Aviso.Finesse
