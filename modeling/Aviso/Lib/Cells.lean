import Mathlib.Algebra.Order.Ring.Nat
import Mathlib.Data.List.Basic
import Mathlib.Data.List.Nodup
import Mathlib.Data.List.Perm.Basic

namespace Aviso.Lib

/-- What the cells of a list hold, when one cell is changed: its own share and the same rest. -/
theorem perm_modify {l : List α} {i : Nat} {a : α} (g : α → Option β) (h : l[i]? = some a) :
    ∃ rest, (l.filterMap g).Perm ((g a).toList ++ rest) ∧
      ∀ f, ((l.modify i f).filterMap g).Perm ((g (f a)).toList ++ rest) := by
  obtain ⟨hi, rfl⟩ := List.getElem?_eq_some_iff.mp h
  have hsplit (b : α) : ((l.take i ++ b :: l.drop (i + 1)).filterMap g).Perm
      ((g b).toList ++ ((l.take i).filterMap g ++ (l.drop (i + 1)).filterMap g)) := by
    rw [List.filterMap_append]
    cases hb : g b with
    | none =>
      rw [List.filterMap_cons_none hb]
      exact List.Perm.refl _
    | some c =>
      rw [List.filterMap_cons_some hb]
      exact List.perm_middle
  refine ⟨(l.take i).filterMap g ++ (l.drop (i + 1)).filterMap g, ?_, ?_⟩
  · have hself := hsplit l[i]
    rwa [← List.drop_eq_getElem_cons hi, List.take_append_drop] at hself
  · intro f
    rw [List.modify_eq_take_cons_drop hi]
    exact hsplit (f l[i])

/-- As `perm_modify`, for cells that hold any number of things. -/
theorem perm_modify_flatMap {l : List α} {i : Nat} {a : α} (g : α → List β) (h : l[i]? = some a) :
    ∃ rest, (l.flatMap g).Perm (g a ++ rest) ∧ ∀ f, ((l.modify i f).flatMap g).Perm (g (f a) ++ rest) := by
  obtain ⟨hi, rfl⟩ := List.getElem?_eq_some_iff.mp h
  have hsplit (b : α) : ((l.take i ++ b :: l.drop (i + 1)).flatMap g).Perm
      (g b ++ ((l.take i).flatMap g ++ (l.drop (i + 1)).flatMap g)) := by
    rw [List.flatMap_append, List.flatMap_cons, ← List.append_assoc, ← List.append_assoc]
    exact List.perm_append_comm.append_right _
  refine ⟨(l.take i).flatMap g ++ (l.drop (i + 1)).flatMap g, ?_, ?_⟩
  · have hself := hsplit l[i]
    rwa [← List.drop_eq_getElem_cons hi, List.take_append_drop] at hself
  · intro f
    rw [List.modify_eq_take_cons_drop hi]
    exact hsplit (f l[i])

/-- Of cells that share nothing, only one holds a thing. -/
theorem cell_unique {l : List α} {g : α → List β} {i j : Nat} (hnodup : (l.flatMap g).Nodup) (hi : l[i]? = some a)
    (hj : l[j]? = some b) (ha : x ∈ g a) (hb : x ∈ g b) : i = j := by
  have hapart := (List.nodup_flatMap.mp hnodup).2
  rw [List.pairwise_iff_getElem] at hapart
  obtain ⟨hil, rfl⟩ := List.getElem?_eq_some_iff.mp hi
  obtain ⟨hjl, rfl⟩ := List.getElem?_eq_some_iff.mp hj
  rcases Nat.lt_trichotomy i j with hlt | heq | hgt
  · exact absurd hb (hapart i j hil hjl hlt ha)
  · exact heq
  · exact absurd ha (hapart j i hjl hil hgt hb)

/-- What the cells hold does not change with what `g` does not see. -/
theorem filterMap_mapIdx {g : α → Option β} {f : Nat → α → α} (h : ∀ i a, g (f i a) = g a) (l : List α) :
    (l.mapIdx f).filterMap g = l.filterMap g := by
  induction l generalizing f with
  | nil => rfl
  | cons a l ih =>
    rw [List.mapIdx_cons, List.filterMap_cons, List.filterMap_cons, h 0 a, ih fun i a => h (i + 1) a]

/-- What the cells of a list sum to, when one cell is changed. -/
theorem sum_modify {l : List α} {i : Nat} {a : α} (g : α → Nat) (h : l[i]? = some a) (f : α → α) :
    ((l.modify i f).map g).sum + g a = (l.map g).sum + g (f a) := by
  induction l generalizing i with
  | nil => cases h
  | cons b l ih =>
    cases i with
    | zero =>
      cases h
      simp only [List.modify_zero_cons, List.map_cons, List.sum_cons]
      omega
    | succ i =>
      have hrest := ih (i := i) h
      simp only [List.modify_succ_cons, List.map_cons, List.sum_cons]
      omega

end Aviso.Lib
