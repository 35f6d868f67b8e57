import Mathlib.Data.List.Induction
import Mathlib.Logic.Function.Basic

namespace Aviso.Lib

variable {κ ν : Type} [DecidableEq κ]

/-- A map with a list of changes made to it, the last one at a key counting. -/
def overlay (base : κ → Option ν) (changes : List (κ × Option ν)) : κ → Option ν :=
  changes.foldl (fun m change => Function.update m change.1 change.2) base

variable {base base' : κ → Option ν} {changes : List (κ × Option ν)} {k : κ}

@[simp] theorem overlay_nil (base : κ → Option ν) : overlay base [] = base := rfl

theorem overlay_append (base : κ → Option ν) (changes later : List (κ × Option ν)) :
    overlay base (changes ++ later) = overlay (overlay base changes) later := List.foldl_append

theorem overlay_snoc (base : κ → Option ν) (changes : List (κ × Option ν)) (k : κ) (v : Option ν) :
    overlay base (changes ++ [(k, v)]) = Function.update (overlay base changes) k v := overlay_append ..

/-- A key nobody changes keeps its value. -/
theorem overlay_of_not_mem (h : k ∉ changes.map Prod.fst) : overlay base changes k = base k := by
  induction changes using List.reverseRecOn with
  | nil => rfl
  | append_singleton changes change ih =>
    rw [List.map_append, List.mem_append, not_or] at h
    have hne : k ≠ change.1 := by simpa using h.2
    rw [overlay_snoc, Function.update_of_ne hne]
    exact ih h.1

/-- The value of a changed key does not depend on what was there before. -/
theorem overlay_of_mem (base base' : κ → Option ν) (h : k ∈ changes.map Prod.fst) :
    overlay base changes k = overlay base' changes k := by
  induction changes using List.reverseRecOn with
  | nil => cases h
  | append_singleton changes change ih =>
    rw [overlay_snoc, overlay_snoc]
    by_cases hk : k = change.1
    · rw [hk, Function.update_self, Function.update_self]
    · rw [Function.update_of_ne hk, Function.update_of_ne hk]
      refine ih ?_
      rw [List.map_append, List.mem_append] at h
      exact h.resolve_right (by simpa using hk)

/-- Maps that agree where nothing is changed are the same once it is. -/
theorem overlay_congr (h : ∀ k, k ∉ changes.map Prod.fst → base k = base' k) :
    overlay base changes = overlay base' changes := by
  funext k
  by_cases hk : k ∈ changes.map Prod.fst
  · exact overlay_of_mem base base' hk
  · rw [overlay_of_not_mem hk, overlay_of_not_mem hk, h k hk]

/-- The last change of a key decides. -/
theorem overlay_last (base : κ → Option ν) (before : List (κ × Option ν)) {v : Option ν}
    {later : List (κ × Option ν)} (h : k ∉ later.map Prod.fst) :
    overlay base (before ++ (k, v) :: later) k = v := by
  rw [List.append_cons, overlay_append, overlay_of_not_mem h, overlay_snoc, Function.update_self]

theorem overlay_removed (base : κ → Option ν) {names : List κ} (h : k ∈ names) :
    overlay base (names.map fun name => (name, none)) k = none := by
  induction names using List.reverseRecOn with
  | nil => cases h
  | append_singleton names name ih =>
    rw [List.map_append, List.map_singleton, overlay_snoc]
    by_cases hk : k = name
    · rw [hk, Function.update_self]
    · rw [Function.update_of_ne hk]
      exact ih ((List.mem_append.mp h).resolve_right (by simpa using hk))

end Aviso.Lib
