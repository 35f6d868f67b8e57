import Mathlib.Data.List.Sort
import Mathlib.Data.List.Range

namespace Aviso.Lib

/-- Jobs `0, 1, …` started in order, some of them running, and the results of the others as they came. -/
structure Pool (α : Type) where
  next : Nat
  pending : List Nat
  collected : List (Nat × α)

namespace Pool

variable {α : Type} {p : Pool α} {i : Nat} {result : α}

def empty : Pool α := ⟨0, [], []⟩

def start (p : Pool α) : Pool α := { p with next := p.next + 1, pending := p.pending ++ [p.next] }

def finish (p : Pool α) (i : Nat) (result : α) : Pool α :=
  { p with pending := p.pending.erase i, collected := p.collected ++ [(i, result)] }

/-- The results by job, once a stable sort has put them in that order. -/
def inOrder (p : Pool α) : List α := (p.collected.insertionSort fun a b => a.1 ≤ b.1).map Prod.snd

/-- Every job started is running or has its one result. -/
def Accounted (p : Pool α) : Prop := (p.pending ++ p.collected.map Prod.fst).Perm (List.range p.next)

theorem Accounted.start (h : p.Accounted) : p.start.Accounted := by
  have hmoved : (p.pending ++ [p.next] ++ p.collected.map Prod.fst).Perm
      (p.pending ++ p.collected.map Prod.fst ++ [p.next]) := by
    rw [List.append_assoc, List.append_assoc]
    exact List.perm_append_comm.append_left _
  rw [Accounted, Pool.start, List.range_succ]
  exact hmoved.trans (h.append_right _)

theorem Accounted.finish (h : p.Accounted) (hi : i ∈ p.pending) : (p.finish i result).Accounted := by
  have hmoved : (p.pending.erase i ++ (p.collected.map Prod.fst ++ [i])).Perm
      (p.pending ++ p.collected.map Prod.fst) := by
    rw [← List.append_assoc]
    refine (List.perm_append_singleton i _).trans ?_
    exact (List.perm_cons_erase hi).symm.append_right _
  rw [Accounted, Pool.finish, List.map_append]
  exact hmoved.trans h

theorem Accounted.pending_lt (h : p.Accounted) (hi : i ∈ p.pending) : i < p.next :=
  List.mem_range.mp (h.subset (List.mem_append_left _ hi))

theorem Accounted.pending_nodup (h : p.Accounted) : p.pending.Nodup :=
  (List.nodup_append.mp (h.nodup_iff.mpr List.nodup_range)).1

/-- A job that is not running has a result. -/
theorem Accounted.collected_of_idle (h : p.Accounted) (hi : i < p.next) (hidle : i ∉ p.pending) :
    ∃ result, (i, result) ∈ p.collected := by
  have hmem := h.symm.subset (List.mem_range.mpr hi)
  obtain ⟨entry, hentry, rfl⟩ := List.mem_map.mp ((List.mem_append.mp hmem).resolve_left hidle)
  exact ⟨entry.2, hentry⟩

theorem Accounted.length (h : p.Accounted) : p.pending.length + p.collected.length = p.next := by
  have hlength := h.length_eq
  rwa [List.length_append, List.length_map, List.length_range] at hlength

theorem length_inOrder (p : Pool α) : p.inOrder.length = p.collected.length := by
  rw [inOrder, List.length_map, List.length_insertionSort]

/-- With no job running, the results come out at the places of their jobs. -/
theorem Accounted.inOrder_get (h : p.Accounted) (hidle : p.pending = []) (hi : (i, result) ∈ p.collected) :
    p.inOrder[i]? = some result := by
  let sorted := p.collected.insertionSort fun a b => a.1 ≤ b.1
  have hkeys : sorted.map Prod.fst = List.range p.next := by
    have hperm : (p.collected.map Prod.fst).Perm (List.range p.next) := by
      rw [Accounted, hidle, List.nil_append] at h
      exact h
    calc sorted.map Prod.fst
        = (p.collected.map Prod.fst).insertionSort (· ≤ ·) :=
          List.map_insertionSort _ _ Prod.fst p.collected fun _ _ _ _ => Iff.rfl
      _ = List.range p.next :=
          ((List.perm_insertionSort _ _).trans hperm).eq_of_pairwise'
            (List.pairwise_insertionSort _ _) List.pairwise_le_range
  obtain ⟨k, hk⟩ := List.mem_iff_getElem?.mp ((List.mem_insertionSort fun a b => a.1 ≤ b.1).mpr hi)
  have hplace : k = i := by
    have hkey : (sorted.map Prod.fst)[k]? = some i := by rw [List.getElem?_map, hk]; rfl
    rw [hkeys] at hkey
    obtain ⟨hlt, heq⟩ := List.getElem?_eq_some_iff.mp hkey
    rwa [List.getElem_range] at heq
  rw [inOrder, List.getElem?_map, ← hplace, hk]
  rfl

end Pool

end Aviso.Lib
