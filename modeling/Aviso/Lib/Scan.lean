import Mathlib.Data.List.DropRight
import Mathlib.Algebra.Order.Ring.Nat

namespace Aviso.Lib

variable {α : Type} {p : α → Bool} {l m : List α}

/-- A scan that stops in `l` does not see what is appended. -/
theorem takeWhile_stop (h : ∃ c ∈ l, p c = false) : (l ++ m).takeWhile p = l.takeWhile p := by
  induction l with
  | nil => exact absurd h (by simp)
  | cons c l ih =>
    cases hc : p c with
    | false => simp [hc]
    | true =>
      obtain ⟨d, hd, hstop⟩ := h
      rcases List.mem_cons.mp hd with rfl | hd
      · rw [hc] at hstop
        cases hstop
      · simp [hc, ih ⟨d, hd, hstop⟩]

theorem dropWhile_stop (h : ∃ c ∈ l, p c = false) : (l ++ m).dropWhile p = l.dropWhile p ++ m := by
  induction l with
  | nil => exact absurd h (by simp)
  | cons c l ih =>
    cases hc : p c with
    | false => simp [hc]
    | true =>
      obtain ⟨d, hd, hstop⟩ := h
      rcases List.mem_cons.mp hd with rfl | hd
      · rw [hc] at hstop
        cases hstop
      · simp [hc, ih ⟨d, hd, hstop⟩]

/-- A scan that stops leaves the element it stopped at. -/
theorem dropWhile_head (h : ∃ c ∈ l, p c = false) :
    ∃ c rest, l.dropWhile p = c :: rest ∧ p c = false := by
  induction l with
  | nil => exact absurd h (by simp)
  | cons c l ih =>
    cases hc : p c with
    | false => exact ⟨c, l, by simp [hc], hc⟩
    | true =>
      obtain ⟨d, hd, hstop⟩ := h
      rcases List.mem_cons.mp hd with rfl | hd
      · rw [hc] at hstop
        cases hstop
      · obtain ⟨e, rest, hrest, he⟩ := ih ⟨d, hd, hstop⟩
        exact ⟨e, rest, by simpa [hc] using hrest, he⟩

/-- Cutting off the end of a text does not reach past an element that stops it. -/
theorem rdropWhile_stop (c : α) (hc : p c = false) :
    (l ++ c :: m).rdropWhile p = l ++ c :: m.rdropWhile p := by
  induction m using List.reverseRecOn with
  | nil =>
    rw [List.rdropWhile_concat_neg p l c (by simp [hc]), List.rdropWhile_nil]
  | append_singleton m d ih =>
    rw [show l ++ c :: (m ++ [d]) = (l ++ c :: m) ++ [d] by simp]
    cases hd : p d with
    | true => rw [List.rdropWhile_concat_pos p _ d hd, List.rdropWhile_concat_pos p _ d hd, ih]
    | false =>
      rw [List.rdropWhile_concat_neg p _ d (by simp [hd]), List.rdropWhile_concat_neg p _ d (by simp [hd])]
      simp

theorem rdropWhile_append_of_pos (h : ∀ c ∈ m, p c = true) : (l ++ m).rdropWhile p = l.rdropWhile p := by
  rw [List.rdropWhile, List.reverse_append, List.dropWhile_append_of_pos, List.rdropWhile]
  intro c hc
  exact h c (List.mem_reverse.mp hc)

/-- Splitting a list, one piece at a time. -/
theorem splitOnP_scan (p : α → Bool) (l : List α) :
    l.splitOnP p = l.takeWhile (!p ·) ::
      (match l.dropWhile (!p ·) with
      | [] => []
      | _ :: rest => rest.splitOnP p) := by
  induction l with
  | nil => rfl
  | cons c l ih =>
    rw [List.splitOnP_cons_eq_if_modifyHead]
    cases hc : p c with
    | true => simp [hc]
    | false =>
      rw [ih]
      simp [hc]

end Aviso.Lib
