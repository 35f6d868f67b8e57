import Mathlib.Algebra.Order.Ring.Nat

namespace Aviso.Lib

/-- Splits at every `cr lf`, `lf` or `cr`. The first part has the lines that
one of these ends, the second what follows the last of them. `cur` is the
line so far. -/
def splitLines [DecidableEq α] (cr lf : α) (cur : List α) : List α → List (List α) × List α
  | [] => ([], cur)
  | a :: rest =>
    if a = lf then (splitLines cr lf [] rest).map (cur :: ·) id
    else if a = cr then
      match rest with
      | [] => ([cur], [])
      | b :: after =>
        if b = lf then (splitLines cr lf [] after).map (cur :: ·) id
        else (splitLines cr lf [] (b :: after)).map (cur :: ·) id
    else splitLines cr lf (cur ++ [a]) rest

example : splitLines '\r' '\n' [] "a\r\n\rb\n\nc".toList =
    ([['a'], [], ['b'], []], ['c']) := by decide +kernel

theorem splitLines_nil [DecidableEq α] (cr lf : α) (cur : List α) :
    splitLines cr lf cur [] = ([], cur) := by
  rw [splitLines.eq_def]

theorem splitLines_lf [DecidableEq α] (cr lf : α) (cur rest : List α) :
    splitLines cr lf cur (lf :: rest) = (splitLines cr lf [] rest).map (cur :: ·) id := by
  rw [splitLines.eq_def]
  simp

theorem splitLines_crlf [DecidableEq α] {cr lf : α} (h : cr ≠ lf) (cur rest : List α) :
    splitLines cr lf cur (cr :: lf :: rest) = (splitLines cr lf [] rest).map (cur :: ·) id := by
  rw [splitLines.eq_def]
  simp [h]

/-- A `cr` that no `lf` follows ends a line by itself. -/
theorem splitLines_cr [DecidableEq α] {cr lf : α} (h : cr ≠ lf) (cur : List α) {rest : List α}
    (hr : rest.head? ≠ some lf) :
    splitLines cr lf cur (cr :: rest) = (splitLines cr lf [] rest).map (cur :: ·) id := by
  rw [splitLines.eq_def]
  cases rest with
  | nil => simp [h, splitLines_nil]
  | cons b after =>
    have hb : b ≠ lf := fun heq => hr (by simp [heq])
    simp [h, hb]

theorem splitLines_plain [DecidableEq α] {cr lf a : α} (hl : a ≠ lf) (hc : a ≠ cr)
    (cur rest : List α) :
    splitLines cr lf cur (a :: rest) = splitLines cr lf (cur ++ [a]) rest := by
  rw [splitLines.eq_def]
  simp [hl, hc]

/-- One case for each way a text can go on: at its end, at each kind of line
end, or with a symbol of the line. -/
theorem lines_induct [DecidableEq α] (cr lf : α) {motive : List α → List α → Prop}
    (nil : ∀ cur, motive cur [])
    (lf_end : ∀ cur rest, motive [] rest → motive cur (lf :: rest))
    (crlf_end : ∀ cur rest, motive [] rest → motive cur (cr :: lf :: rest))
    (cr_end : ∀ cur rest, rest.head? ≠ some lf → motive [] rest → motive cur (cr :: rest))
    (plain : ∀ cur a rest, a ≠ lf → a ≠ cr → motive (cur ++ [a]) rest → motive cur (a :: rest))
    (cur rest : List α) : motive cur rest := by
  induction h : rest.length using Nat.strongRecOn generalizing cur rest with
  | ind n ih =>
    subst h
    cases rest with
    | nil => exact nil cur
    | cons a rest =>
      by_cases hl : a = lf
      · subst hl
        exact lf_end cur rest (ih _ (by simp) [] rest rfl)
      · by_cases hc : a = cr
        · subst hc
          by_cases hr : rest.head? = some lf
          · obtain ⟨after, rfl⟩ : ∃ after, rest = lf :: after := by
              cases rest with
              | nil => simp at hr
              | cons b after => exact ⟨after, by simpa using hr⟩
            exact crlf_end cur after (ih _ (by simp only [List.length_cons]; omega) [] after rfl)
          · exact cr_end cur rest hr (ih _ (by simp) [] rest rfl)
        · exact plain cur a rest hl hc (ih _ (by simp) _ rest rfl)

/-- Symbols of a line are passed over together. -/
theorem splitLines_append [DecidableEq α] {cr lf : α} (cur text rest : List α)
    (ht : ∀ a ∈ text, a ≠ lf ∧ a ≠ cr) :
    splitLines cr lf cur (text ++ rest) = splitLines cr lf (cur ++ text) rest := by
  induction text generalizing cur with
  | nil => simp
  | cons a text ih =>
    obtain ⟨hl, hc⟩ := ht a (by simp)
    rw [List.cons_append, splitLines_plain hl hc, ih _ (fun b hb => ht b (by simp [hb]))]
    simp

/-- What is read of a line so far begins the first line or the rest. -/
theorem splitLines_extends [DecidableEq α] {cr lf : α} (hne : cr ≠ lf) (cur rest : List α) :
    ∃ line, (line ∈ (splitLines cr lf cur rest).1 ∨ line = (splitLines cr lf cur rest).2) ∧
      cur <+: line := by
  induction cur, rest using lines_induct cr lf with
  | nil cur => exact ⟨cur, by simp [splitLines_nil], List.prefix_refl cur⟩
  | lf_end cur rest _ => exact ⟨cur, by simp [splitLines_lf], List.prefix_refl cur⟩
  | crlf_end cur rest _ => exact ⟨cur, by simp [splitLines_crlf hne], List.prefix_refl cur⟩
  | cr_end cur rest hr _ => exact ⟨cur, by simp [splitLines_cr hne cur hr], List.prefix_refl cur⟩
  | plain cur a rest hl hc ih =>
    obtain ⟨line, hm, hpre⟩ := ih
    rw [splitLines_plain hl hc]
    exact ⟨line, hm, (List.prefix_append cur [a]).trans hpre⟩

end Aviso.Lib
