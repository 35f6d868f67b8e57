import Mathlib.Algebra.Order.Ring.Nat
import Mathlib.Tactic.Ring

namespace Aviso.Lib

/-- How far ahead of `next` the position `i` lies on a ring of `n`. -/
def ahead (n next i : Nat) : Nat := (i + n - next) % n

variable {n next i o : Nat}

theorem ring_cases (hnext : next < n) (ho : o < n) :
    next + o < n ∧ (next + o) % n = next + o ∨ n ≤ next + o ∧ (next + o) % n = next + o - n := by
  rcases Nat.lt_or_ge (next + o) n with hlt | hge
  · exact .inl ⟨hlt, Nat.mod_eq_of_lt hlt⟩
  · refine .inr ⟨hge, ?_⟩
    rw [Nat.mod_eq_sub_mod hge, Nat.mod_eq_of_lt (by omega)]

theorem ahead_cases (hnext : next < n) (hi : i < n) :
    next ≤ i ∧ ahead n next i = i - next ∨ i < next ∧ ahead n next i = i + n - next := by
  rcases Nat.lt_or_ge i next with hlt | hge
  · exact .inr ⟨hlt, Nat.mod_eq_of_lt (by omega)⟩
  · refine .inl ⟨hge, ?_⟩
    rw [ahead, Nat.mod_eq_sub_mod (by omega), Nat.mod_eq_of_lt (by omega)]
    omega

theorem ahead_lt (hnext : next < n) (hi : i < n) : ahead n next i < n := by
  rcases ahead_cases hnext hi with h | h <;> omega

/-- A position is reached by exactly one offset from `next`. -/
theorem ring_eq_iff (hnext : next < n) (hi : i < n) (ho : o < n) : (next + o) % n = i ↔ o = ahead n next i := by
  rcases ring_cases hnext ho with ⟨_, hring⟩ | ⟨_, hring⟩ <;>
    rcases ahead_cases hnext hi with h | h <;>
    omega

/-- A position is nearer once the ring is entered behind an earlier one. -/
theorem ahead_after (hnext : next < n) (hi : i < n) (ho : o < ahead n next i) :
    ahead n (((next + o) % n + 1) % n) i = ahead n next i - (o + 1) := by
  have hlt := ahead_lt hnext hi
  have hmod : ((next + o) % n + 1) % n = (next + (o + 1)) % n := by
    rw [Nat.mod_add_mod, Nat.add_assoc]
  have hentry : (next + (o + 1)) % n < n := Nat.mod_lt _ (by omega)
  rw [hmod]
  rcases ring_cases hnext (show o + 1 < n by omega) with ⟨_, hring⟩ | ⟨_, hring⟩ <;>
    rcases ahead_cases hnext hi with h | h <;>
    rcases ahead_cases hentry hi with h' | h' <;>
    omega

end Aviso.Lib
