import Aviso.State.FileStore

namespace Aviso.State

/-- What the merge leaves at a key that is on disk. -/
def resolved (deleted : Option Nat) (diskCp : Checkpoint) (cand : Option Checkpoint) :
    Option Checkpoint :=
  match deleted with
  | some preSeq => if diskCp.lastCommittedSequence > preSeq then some diskCp else cand
  | none =>
    match cand with
    | some cp =>
      if diskCp.lastCommittedSequence ≥ cp.lastCommittedSequence then some diskCp else some cp
    | none => some diskCp

theorem lookup_merge (candidate disk : Checkpoints) (deletes : Lib.Table ResumeKey Nat)
    (k : ResumeKey) :
    (mergeMonotonic candidate disk deletes).lookup k =
      (disk.lookup k).elim (candidate.lookup k) fun diskCp =>
        resolved (deletes.lookup k) diskCp (candidate.lookup k) := by
  have hfold := Lib.Table.lookup_foldl disk (mergeEntry deletes)
    (fun k diskCp cand => resolved (deletes.lookup k) diskCp cand) ?_ ?_ candidate k
  · rw [mergeMonotonic, hfold]
  · intro m k v k' hk
    unfold mergeEntry
    repeat' split
    all_goals simp [AList.lookup_insert_ne hk]
  · intro m k v
    unfold mergeEntry resolved
    cases deletes.lookup k with
    | some preSeq => dsimp only; split <;> simp
    | none =>
      cases h : m.lookup k with
      | none => simp
      | some cand => dsimp only; split <;> simp [h]

/-- What the restoring loop leaves at a key of the snapshot. -/
def restored (preCp : Checkpoint) (cand : Option Checkpoint) : Option Checkpoint :=
  cand.map fun candCp =>
    if candCp.lastCommittedSequence ≤ preCp.lastCommittedSequence then preCp else candCp

theorem lookup_restore (preState candidate : Checkpoints) (k : ResumeKey) :
    (restoreLower preState candidate).lookup k =
      (preState.lookup k).elim (candidate.lookup k) fun preCp =>
        restored preCp (candidate.lookup k) := by
  have hfold := Lib.Table.lookup_foldl preState restoreEntry
    (fun _ preCp cand => restored preCp cand) ?_ ?_ candidate k
  · rw [restoreLower, hfold]
  · intro m k v k' hk
    unfold restoreEntry
    repeat' split
    all_goals simp [AList.lookup_insert_ne hk]
  · intro m k v
    unfold restoreEntry restored
    cases h : m.lookup k with
    | none => simp [h]
    | some cand => dsimp only; split <;> simp [*]

theorem lookup_deletes (preState candidate : Checkpoints) (k : ResumeKey) :
    (deletesOf preState candidate).lookup k =
      if k ∈ candidate then none else preState.sequence k := by
  have hfold := Lib.Table.lookup_foldl preState
    (fun deletes k cp => if k ∈ candidate then deletes else deletes.insert k cp.lastCommittedSequence)
    (fun k cp old => if k ∈ candidate then old else some cp.lastCommittedSequence) ?_ ?_ ∅ k
  · rw [deletesOf, hfold]
    unfold Checkpoints.sequence
    cases preState.lookup k <;> simp
  · intro m k v k' hk
    split <;> simp [AList.lookup_insert_ne hk]
  · intro m k v
    split <;> simp

theorem commit_disk (t : Task) (disk : Checkpoints) (k : ResumeKey) :
    (t.commit disk).2.lookup k = (t.commit disk).1.lookup k := by
  unfold Task.commit
  dsimp only
  split
  · rename_i hsame
    exact (hsame.lookup k).symm
  · rfl

namespace Write

theorem mutate_other (w : Write) (m : Checkpoints) {k : ResumeKey} (hk : k ≠ w.key) :
    (w.mutate m).lookup k = m.lookup k := by
  cases w with
  | put key checkpoint => exact AList.lookup_insert_ne hk
  | delete key => exact AList.lookup_erase_ne hk

end Write

/-- A key the write is not about keeps its snapshot in the candidate and is no
delete. -/
theorem prepare_other (inner : Checkpoints) (write : Write) {k : ResumeKey} (hk : k ≠ write.key) :
    (prepare inner write).candidate.lookup k = inner.lookup k ∧
      (prepare inner write).deletes.lookup k = none := by
  have hcand : (restoreLower inner (write.mutate inner)).lookup k = inner.lookup k := by
    rw [lookup_restore, write.mutate_other inner hk]
    cases h : inner.lookup k with
    | none => rfl
    | some cp => simp [restored]
  refine ⟨hcand, ?_⟩
  simp only [prepare, lookup_deletes]
  split
  · rfl
  · rename_i hmem
    rw [← AList.lookup_isSome, hcand] at hmem
    simpa [Checkpoints.sequence] using hmem

/-- The candidate of a put holds its key at the sequence put, or at the higher
one of the snapshot. -/
theorem prepare_put (inner : Checkpoints) (key : ResumeKey) (checkpoint : Checkpoint) :
    ∃ cp, (prepare inner (.put key checkpoint)).candidate.lookup key = some cp ∧
      checkpoint.lastCommittedSequence ≤ cp.lastCommittedSequence ∧
      (prepare inner (.put key checkpoint)).deletes.lookup key = none := by
  have hcand : ∃ cp, (prepare inner (.put key checkpoint)).candidate.lookup key = some cp ∧
      checkpoint.lastCommittedSequence ≤ cp.lastCommittedSequence := by
    simp only [prepare, lookup_restore, Write.mutate, AList.lookup_insert]
    cases inner.lookup key with
    | none => exact ⟨checkpoint, rfl, Nat.le_refl _⟩
    | some preCp =>
      simp only [Option.elim_some, restored, Option.map_some]
      split
      · exact ⟨preCp, rfl, ‹_›⟩
      · exact ⟨checkpoint, rfl, Nat.le_refl _⟩
  obtain ⟨cp, hcp, hle⟩ := hcand
  have hmem : key ∈ (prepare inner (.put key checkpoint)).candidate := by
    rw [← AList.lookup_isSome, hcp]
    rfl
  refine ⟨cp, hcp, hle, ?_⟩
  have hdel := lookup_deletes inner (prepare inner (.put key checkpoint)).candidate key
  rwa [if_pos hmem] at hdel

/-- The candidate of a delete lacks its key, and the sequence seen is recorded. -/
theorem prepare_delete (inner : Checkpoints) (key : ResumeKey) :
    (prepare inner (.delete key)).candidate.lookup key = none ∧
      (prepare inner (.delete key)).deletes.lookup key = inner.sequence key := by
  have hcand : (prepare inner (.delete key)).candidate.lookup key = none := by
    simp only [prepare, lookup_restore, Write.mutate, AList.lookup_erase]
    cases inner.lookup key <;> rfl
  have hmem : key ∉ (prepare inner (.delete key)).candidate := by
    rw [← AList.lookup_isSome, hcand]
    simp
  refine ⟨hcand, ?_⟩
  have hdel := lookup_deletes inner (prepare inner (.delete key)).candidate key
  rwa [if_neg hmem] at hdel

end Aviso.State
