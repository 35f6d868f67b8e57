import Mathlib.Data.Finmap
import Mathlib.Algebra.Order.Ring.Nat

namespace Aviso.Lib

/-- A finite map. -/
abbrev Table (κ : Type) (ν : Type) := AList (fun _ : κ => ν)

namespace Table

variable [DecidableEq κ]

/-- Two tables with the same contents, whatever the order of their entries. -/
def Same [DecidableEq ν] (s t : Table κ ν) : Prop := s.toFinmap = t.toFinmap

instance [DecidableEq ν] (s t : Table κ ν) : Decidable (s.Same t) :=
  inferInstanceAs (Decidable (s.toFinmap = t.toFinmap))

theorem Same.lookup [DecidableEq ν] {s t : Table κ ν} (h : s.Same t) (k : κ) :
    s.lookup k = t.lookup k := by
  have hk := congrArg (Finmap.lookup k) h
  simpa only [Finmap.lookup_toFinmap] using hk

/-- What a loop over the entries of a table leaves at one key, when the body
for a key neither reads nor writes any other. -/
theorem lookup_foldl (t : Table κ ν) (body : Table κ μ → κ → ν → Table κ μ)
    (effect : κ → ν → Option μ → Option μ)
    (hother : ∀ m k v k', k' ≠ k → (body m k v).lookup k' = m.lookup k')
    (hown : ∀ m k v, (body m k v).lookup k = effect k v (m.lookup k))
    (m : Table κ μ) (k : κ) :
    (t.foldl body m).lookup k =
      (t.lookup k).elim (m.lookup k) fun v => effect k v (m.lookup k) := by
  have hlist : ∀ (entries : List (Sigma fun _ : κ => ν)) (m : Table κ μ), entries.NodupKeys →
      (entries.foldl (fun m e => body m e.1 e.2) m).lookup k =
        (entries.dlookup k).elim (m.lookup k) fun v => effect k v (m.lookup k) := by
    intro entries
    induction entries with
    | nil => exact fun m _ => rfl
    | cons e entries ih =>
      intro m hnodup
      obtain ⟨k₀, v⟩ := e
      obtain ⟨hfree, hrest⟩ := List.nodupKeys_cons.mp hnodup
      rw [List.foldl_cons, ih _ hrest]
      by_cases hk : k = k₀
      · subst hk
        have hgone : entries.dlookup k = none := List.dlookup_eq_none.mpr hfree
        simp [hgone, hown]
      · simp [List.dlookup_cons_ne entries ⟨k₀, v⟩ hk, hother _ _ _ _ hk]
  exact hlist t.entries m t.nodupKeys

/-- A table under other keys. -/
def reindex [DecidableEq κ'] (f : κ → κ') (t : Table κ ν) : Table κ' ν :=
  t.foldl (fun acc k v => acc.insert (f k) v) ∅

/-- Keys that no other key of the table is renamed to keep what they held. -/
theorem lookup_reindex [DecidableEq κ'] (f : κ → κ') (t : Table κ ν) {k : κ}
    (hinj : ∀ k' ∈ t, f k' = f k → k' = k) : (reindex f t).lookup (f k) = t.lookup k := by
  have hlist : ∀ (entries : List (Sigma fun _ : κ => ν)) (acc : Table κ' ν), entries.NodupKeys →
      (∀ k' ∈ entries.keys, f k' = f k → k' = k) →
      (entries.foldl (fun acc e => acc.insert (f e.1) e.2) acc).lookup (f k) =
        (entries.dlookup k).or (acc.lookup (f k)) := by
    intro entries
    induction entries with
    | nil => exact fun acc _ _ => rfl
    | cons e entries ih =>
      intro acc hnodup hinj
      obtain ⟨k₀, v⟩ := e
      obtain ⟨hfree, hrest⟩ := List.nodupKeys_cons.mp hnodup
      rw [List.foldl_cons, ih _ hrest fun k' hk' => hinj k' (List.mem_cons_of_mem _ hk')]
      by_cases hk : k = k₀
      · subst hk
        have hgone : entries.dlookup k = none := List.dlookup_eq_none.mpr hfree
        simp [hgone]
      · have hne : f k ≠ f k₀ := fun heq => hk (hinj k₀ List.mem_cons_self heq.symm).symm
        rw [List.dlookup_cons_ne entries ⟨k₀, v⟩ hk, AList.lookup_insert_ne hne]
  have hentries := hlist t.entries ∅ t.nodupKeys hinj
  rw [AList.lookup_empty, Option.or_none] at hentries
  exact hentries

omit [DecidableEq κ] in
theorem mem_reindex [DecidableEq κ'] (f : κ → κ') (t : Table κ ν) {k' : κ'} (h : k' ∈ reindex f t) :
    ∃ k ∈ t, f k = k' := by
  have hlist : ∀ (entries : List (Sigma fun _ : κ => ν)) (acc : Table κ' ν),
      k' ∈ entries.foldl (fun acc e => acc.insert (f e.1) e.2) acc →
      k' ∈ acc ∨ ∃ k ∈ entries.keys, f k = k' := by
    intro entries
    induction entries with
    | nil => exact fun acc h => .inl h
    | cons e entries ih =>
      intro acc h
      rcases ih _ h with h | ⟨k, hk, heq⟩
      · rcases AList.mem_insert acc |>.mp h with rfl | h
        · exact .inr ⟨e.1, List.mem_cons_self, rfl⟩
        · exact .inl h
      · exact .inr ⟨k, List.mem_cons_of_mem _ hk, heq⟩
  rcases hlist t.entries ∅ h with h | h
  · exact absurd h (AList.notMem_empty k')
  · exact h

end Table
end Aviso.Lib
