import Aviso.State.Checkpoint

namespace Aviso.State

/-- `KEY_FORMAT_VERSION`. -/
def keyFormatVersion : Nat := 1

/-- A key as `ResumeKey::new` makes it. -/
abbrev CurrentKey := { k : ResumeKey // k.keyFormatVersion = keyFormatVersion }

/-- The map of a `MemoryStore`, which all its clones share. -/
structure MemoryStore where
  inner : Checkpoints

namespace MemoryStore

def new : MemoryStore := ⟨∅⟩

def get (s : MemoryStore) (key : ResumeKey) : Option Checkpoint := s.inner.lookup key

def put (s : MemoryStore) (key : ResumeKey) (checkpoint : Checkpoint) : MemoryStore :=
  match s.inner.lookup key with
  | some existing =>
    if existing.lastCommittedSequence ≥ checkpoint.lastCommittedSequence then s
    else ⟨s.inner.insert key checkpoint⟩
  | none => ⟨s.inner.insert key checkpoint⟩

def delete (s : MemoryStore) (key : ResumeKey) : MemoryStore := ⟨s.inner.erase key⟩

def write (s : MemoryStore) : Write → MemoryStore
  | .put key checkpoint => s.put key checkpoint
  | .delete key => s.delete key

theorem get_put (s : MemoryStore) (key : ResumeKey) (checkpoint : Checkpoint) (k : ResumeKey) :
    (s.put key checkpoint).get k =
      if k = key then
        some (((s.get key).filter fun existing =>
          checkpoint.lastCommittedSequence ≤ existing.lastCommittedSequence).getD checkpoint)
      else s.get k := by
  unfold put get
  by_cases hk : k = key
  · subst hk
    cases h : s.inner.lookup k with
    | none => simp
    | some existing =>
      by_cases hle : checkpoint.lastCommittedSequence ≤ existing.lastCommittedSequence
      · simp [hle, h, Option.filter]
      · simp [hle, Option.filter]
  · cases h : s.inner.lookup key with
    | none => simp [hk, AList.lookup_insert_ne hk]
    | some existing =>
      simp only [hk, if_false]
      split
      · rfl
      · exact AList.lookup_insert_ne hk

theorem get_delete (s : MemoryStore) (key k : ResumeKey) :
    (s.delete key).get k = if k = key then none else s.get k := by
  unfold delete get
  by_cases hk : k = key
  · subst hk
    simp
  · simp [hk, AList.lookup_erase_ne hk]

end MemoryStore
end Aviso.State
