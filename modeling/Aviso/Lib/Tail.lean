import Mathlib.Data.List.DropRight

namespace Aviso.Lib

section Tail

variable {α : Type} {n : Nat} {l s : List α}

theorem length_rtake (l : List α) (n : Nat) : (l.rtake n).length = min n l.length := by
  rw [List.rtake, List.length_drop]
  omega

/-- A long enough addition is all that its own tail comes from. -/
theorem rtake_append_long (h : n ≤ s.length) : (l ++ s).rtake n = s.drop (s.length - n) := by
  rw [List.rtake, List.length_append, Nat.add_sub_assoc h, List.drop_append]
  simp

/-- A short addition is kept whole, behind what there is room for. -/
theorem rtake_append_short (h : s.length ≤ n) :
    (l ++ s).rtake n = l.rtake (n - s.length) ++ s := by
  have hbound : l.length + s.length - n ≤ l.length := by omega
  rw [List.rtake, List.rtake, List.length_append, List.drop_append_of_le_length hbound]
  congr 2
  omega

/-- Room for more is made by dropping from the front of what is kept. -/
theorem drop_rtake (l : List α) (k n : Nat) (h : k ≤ (l.rtake n).length) :
    (l.rtake n).drop k = l.rtake ((l.rtake n).length - k) := by
  rw [length_rtake] at h ⊢
  rw [List.rtake, List.rtake, List.drop_drop]
  congr 1
  omega

/-- Room that was left over makes no difference. -/
theorem rtake_narrow {m : Nat} (h : (l.rtake n).length ≤ m) (hm : m ≤ n) :
    l.rtake m = l.rtake n := by
  rw [length_rtake] at h
  rw [List.rtake, List.rtake]
  congr 1
  omega

end Tail

end Aviso.Lib
