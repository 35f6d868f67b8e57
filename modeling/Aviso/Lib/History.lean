import Mathlib.Algebra.Order.Ring.Nat
import Mathlib.Data.List.Basic
import Mathlib.Data.List.TakeWhile

namespace Aviso.Lib

/-- Every event of a history meets `P`, given the events before it. -/
def Always (P : List ε → ε → Prop) (h : List ε) : Prop :=
  ∀ pre e post, h = pre ++ e :: post → P pre e

namespace Always

variable {P Q : List ε → ε → Prop} {h : List ε}

theorem nil : Always P [] := by
  intro pre e post heq
  simp at heq

theorem snoc (hh : Always P h) (he : P h e) : Always P (h ++ [e]) := by
  intro pre e' post heq
  rcases List.eq_nil_or_concat post with rfl | ⟨post, last, rfl⟩
  · obtain ⟨rfl, hlast⟩ := List.append_inj' heq rfl
    cases hlast
    exact he
  · rw [List.concat_eq_append, ← List.cons_append, ← List.append_assoc] at heq
    obtain ⟨rfl, -⟩ := List.append_inj' heq rfl
    exact hh pre e' post rfl

theorem of_append (hh : Always P (h ++ t)) : Always P h := by
  intro pre e post heq
  exact hh pre e (post ++ t) (by simp [heq])

theorem last (hh : Always P (h ++ [e])) : P h e := hh h e [] rfl

theorem snoc_iff : Always P (h ++ [e]) ↔ Always P h ∧ P h e :=
  ⟨fun hh => ⟨hh.of_append, hh.last⟩, fun hh => hh.1.snoc hh.2⟩

theorem mono (himp : ∀ pre e, P pre e → Q pre e) (hh : Always P h) : Always Q h := by
  intro pre e post heq
  exact himp pre e (hh pre e post heq)

theorem iff_take : Always P h ↔ ∀ i : Fin h.length, P (h.take i) (h.get i) := by
  constructor
  · intro hh i
    exact hh (h.take i) (h.get i) (h.drop (i + 1)) (by simp)
  · intro hh pre e post heq
    subst heq
    have hi : pre.length < (pre ++ e :: post).length := by simp
    simpa using hh ⟨pre.length, hi⟩

instance [∀ pre e, Decidable (P pre e)] : Decidable (Always P h) :=
  decidable_of_iff' _ iff_take

end Always

section Later

variable {p q : ε → Bool} {h t : List ε}

/-- How many events that meet `q` come after the first that meets `p`. -/
def later (p q : ε → Bool) (h : List ε) : Nat := (h.dropWhile (!p ·)).countP q

/-- Before the first event that meets `p` nothing is counted. -/
theorem later_append_of_none (hnone : ∀ e ∈ h, p e = false) : later p q (h ++ t) = later p q t := by
  rw [later, List.dropWhile_append_of_pos, later]
  intro e he
  rw [hnone e he]
  rfl

theorem later_append_of_mem (hmem : e ∈ h) (he : p e = true) : later p q (h ++ t) = later p q h + t.countP q := by
  have hany : ¬ ∀ x ∈ h, (!p x) = true := fun hall => absurd (hall e hmem) (by simp [he])
  rw [later, List.dropWhile_append, if_neg, List.countP_append, later]
  rwa [List.isEmpty_iff, List.dropWhile_eq_nil_iff]

end Later
end Aviso.Lib
