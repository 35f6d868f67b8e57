import Aviso.Lib.Table

namespace Aviso.Lib

variable [DecidableEq κ] {t : Table κ Nat} {keys : List κ}

/-- The table counts the keys of a list, and has no entry for any other key. -/
def Tallies (t : Table κ Nat) (keys : List κ) : Prop :=
  ∀ k, t.lookup k = if k ∈ keys then some (keys.count k) else none

namespace Tallies

theorem empty : Tallies (∅ : Table κ Nat) [] := by
  intro k
  simp

theorem perm (h : Tallies t keys) (hperm : keys.Perm keys') : Tallies t keys' := by
  intro k
  rw [h k, hperm.count_eq]
  simp only [hperm.mem_iff]

theorem getD (h : Tallies t keys) (k : κ) : (t.lookup k).getD 0 = keys.count k := by
  rw [h k]
  split
  · rfl
  · exact (List.count_eq_zero.mpr ‹_›).symm

theorem pos_iff (h : Tallies t keys) (k : κ) : 0 < (t.lookup k).getD 0 ↔ k ∈ keys := by
  rw [h.getD]
  exact List.count_pos_iff

/-- One more of a key. -/
theorem increment (h : Tallies t keys) (k : κ) :
    Tallies (t.insert k ((t.lookup k).getD 0 + 1)) (k :: keys) := by
  intro k'
  rw [h.getD]
  by_cases hk : k' = k
  · subst hk
    simp
  · rw [AList.lookup_insert_ne hk, h k']
    have hkey : (k == k') = false := beq_eq_false_iff_ne.mpr fun heq => hk heq.symm
    simp [List.count_cons, hk, hkey]

/-- One less of a key; its entry goes with the last one. -/
theorem decrement (h : Tallies t keys) (hperm : keys.Perm (k :: rest)) :
    ∃ n, t.lookup k = some n ∧ Tallies (if n - 1 = 0 then t.erase k else t.insert k (n - 1)) rest := by
  have hlookup := h.perm hperm k
  rw [if_pos List.mem_cons_self, List.count_cons_self] at hlookup
  refine ⟨rest.count k + 1, hlookup, ?_⟩
  intro k'
  have hother := h.perm hperm k'
  rw [Nat.add_sub_cancel]
  by_cases hk : k' = k
  · subst hk
    split
    · rename_i hnone
      rw [AList.lookup_erase, if_neg (List.count_eq_zero.mp hnone)]
    · rename_i hsome
      rw [AList.lookup_insert, if_pos (List.count_pos_iff.mp (Nat.pos_of_ne_zero hsome))]
  · have hkey : (k == k') = false := beq_eq_false_iff_ne.mpr fun heq => hk heq.symm
    have hkept : t.lookup k' = if k' ∈ rest then some (rest.count k') else none := by
      simpa [List.count_cons, hk, hkey] using hother
    split
    · rw [AList.lookup_erase_ne hk, hkept]
    · rw [AList.lookup_insert_ne hk, hkept]

end Tallies
end Aviso.Lib
