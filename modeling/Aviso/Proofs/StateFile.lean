import Aviso.Proofs.Merging

namespace Aviso.State

/-- What a snapshot shows for a key is on disk, at its sequence or a later one. -/
def Current (snapshot disk : Checkpoints) (k : ResumeKey) : Prop :=
  ∀ seen, snapshot.lookup k = some seen →
    ∃ cp, disk.lookup k = some cp ∧ seen.lastCommittedSequence ≤ cp.lastCommittedSequence

/-- A task comes from `prepare`. -/
def Task.Prepared (t : Task) : Prop := t = prepare t.preState t.write

theorem prepare_prepared (inner : Checkpoints) (write : Write) : (prepare inner write).Prepared :=
  rfl

namespace Task

variable {t : Task}

theorem commit_lookup (t : Task) (disk : Checkpoints) (k : ResumeKey) :
    (t.commit disk).2.lookup k =
      (disk.lookup k).elim (t.candidate.lookup k) fun diskCp =>
        resolved (t.deletes.lookup k) diskCp (t.candidate.lookup k) := by
  rw [commit_disk]
  exact lookup_merge _ _ _ _

/-- A key the write is not about is left alone exactly when the snapshot has
nothing newer to say about it than the disk. -/
theorem commit_other (ht : t.Prepared) (disk : Checkpoints) {k : ResumeKey} (hk : k ≠ t.write.key) :
    (t.commit disk).2.lookup k = disk.lookup k ↔ Current t.preState disk k := by
  obtain ⟨hcand, hdel⟩ := prepare_other t.preState t.write hk
  rw [← ht] at hcand hdel
  rw [commit_lookup, hcand, hdel]
  unfold Current
  cases hdisk : disk.lookup k with
  | none =>
    cases hseen : t.preState.lookup k with
    | none => simp
    | some seen => simp
  | some diskCp =>
    cases hseen : t.preState.lookup k with
    | none => simp [resolved]
    | some seen =>
      simp only [Option.elim_some, resolved, Option.some.injEq, forall_eq', exists_eq_left']
      by_cases hle : seen.lastCommittedSequence ≤ diskCp.lastCommittedSequence
      · simp [hle]
      · simp only [ge_iff_le, hle, if_false, Option.some.injEq, iff_false]
        intro heq
        exact hle (by rw [heq])

theorem Prepared.deletes_absent (ht : t.Prepared) {k : ResumeKey}
    (hk : t.deletes.lookup k ≠ none) : t.candidate.lookup k = none := by
  have hdel : t.deletes.lookup k =
      if k ∈ t.candidate then none else t.preState.sequence k := by
    rw [ht]
    exact lookup_deletes _ _ _
  by_cases hmem : k ∈ t.candidate
  · rw [if_pos hmem] at hdel
    exact absurd hdel hk
  · rw [← AList.lookup_isSome] at hmem
    simpa using hmem

/-- No commit lowers the sequence of a key it keeps. -/
theorem commit_monotone (ht : t.Prepared) {disk : Checkpoints} {k : ResumeKey} {s s' : Nat}
    (hs : disk.sequence k = some s) (hs' : (t.commit disk).2.sequence k = some s') : s ≤ s' := by
  obtain ⟨cp, hcp, rfl⟩ := Option.map_eq_some_iff.mp hs
  obtain ⟨cp', hcp', rfl⟩ := Option.map_eq_some_iff.mp hs'
  rw [commit_lookup, hcp] at hcp'
  simp only [Option.elim_some, resolved] at hcp'
  cases hd : t.deletes.lookup k with
  | some preSeq =>
    rw [hd, ht.deletes_absent (by simp [hd])] at hcp'
    dsimp only at hcp'
    split at hcp'
    · cases hcp'; exact Nat.le_refl _
    · cases hcp'
  | none =>
    rw [hd] at hcp'
    dsimp only at hcp'
    repeat' split at hcp'
    all_goals cases hcp'; omega

/-- Only a delete takes its key off the disk, and only when the snapshot held
the key at the sequence on disk or a later one. -/
theorem commit_removes (ht : t.Prepared) {disk : Checkpoints} {k : ResumeKey} {s : Nat}
    (hs : disk.sequence k = some s) (hgone : (t.commit disk).2.sequence k = none) :
    t.write = .delete k ∧ ∃ seen, t.preState.sequence k = some seen ∧ s ≤ seen := by
  obtain ⟨cp, hcp, rfl⟩ := Option.map_eq_some_iff.mp hs
  have hgone' := Option.map_eq_none_iff.mp hgone
  rw [commit_lookup, hcp, Option.elim_some] at hgone'
  obtain ⟨seen, hseen, hle⟩ : ∃ seen, t.deletes.lookup k = some seen ∧
      cp.lastCommittedSequence ≤ seen := by
    cases hd : t.deletes.lookup k with
    | none =>
      rw [hd] at hgone'
      simp only [resolved] at hgone'
      repeat' split at hgone'
      all_goals simp at hgone'
    | some seen =>
      rw [hd] at hgone'
      simp only [resolved] at hgone'
      split at hgone'
      · simp at hgone'
      · exact ⟨seen, rfl, by omega⟩
  by_cases hk : k = t.write.key
  · cases hw : t.write with
    | put key checkpoint =>
      have hkey : k = key := hk.trans (congrArg Write.key hw)
      obtain ⟨-, -, -, hnone⟩ := prepare_put t.preState key checkpoint
      rw [← hw, ← ht, ← hkey, hseen] at hnone
      cases hnone
    | delete key =>
      have hkey : k = key := hk.trans (congrArg Write.key hw)
      obtain ⟨-, hdel⟩ := prepare_delete t.preState key
      rw [← hw, ← ht, ← hkey] at hdel
      exact ⟨by rw [hkey], seen, hdel.symm.trans hseen, hle⟩
  · obtain ⟨-, hnone⟩ := prepare_other t.preState t.write hk
    rw [← ht, hseen] at hnone
    cases hnone

/-- After the commit of a put its key is on disk at the sequence put, or higher. -/
theorem commit_put (ht : t.Prepared) {key : ResumeKey} {checkpoint : Checkpoint}
    (hw : t.write = .put key checkpoint) (disk : Checkpoints) :
    ∃ s, (t.commit disk).2.sequence key = some s ∧ checkpoint.lastCommittedSequence ≤ s := by
  obtain ⟨cp, hcand, hle, hdel⟩ := prepare_put t.preState key checkpoint
  rw [← hw, ← ht] at hcand hdel
  unfold Checkpoints.sequence
  rw [commit_lookup, hcand, hdel]
  cases disk.lookup key with
  | none => exact ⟨_, rfl, hle⟩
  | some diskCp =>
    simp only [Option.elim_some, resolved]
    split
    · exact ⟨_, rfl, Nat.le_trans hle ‹_›⟩
    · exact ⟨_, rfl, hle⟩

end Task

namespace World

/-- Every task in flight comes from `prepare`. -/
structure Sound (w : World) : Prop where
  calls : ∀ handle ∈ w.handles, ∀ call, handle.call = some call → call.task.Prepared
  detached : ∀ task ∈ w.detached, task.Prepared

theorem init_sound (disk : Checkpoints) : (init disk).Sound :=
  ⟨by simp [init], by simp [init]⟩

theorem Sound.setCall {w : World} (hw : w.Sound) (h : Nat) (handle : Handle) (call : Option Call)
    (hcall : ∀ c, call = some c → c.task.Prepared) : (w.setCall h handle call).Sound := by
  refine ⟨fun handle' hm c hc => ?_, hw.detached⟩
  rcases List.mem_or_eq_of_mem_set hm with hm | rfl
  · exact hw.calls handle' hm c hc
  · exact hcall c hc

theorem Sound.call {w : World} (hw : w.Sound) {h : Nat} {handle : Handle} {c : Call}
    (hh : w.handles[h]? = some handle) (hc : handle.call = some c) : c.task.Prepared :=
  hw.calls handle (List.mem_of_getElem? hh) c hc

/-- What a step of a handle's call needs: the handle, and its call. -/
theorem bind_handle {w : World} {h : Nat} {f : Handle → Option World} {w' : World}
    (hs : (w.handles[h]?.bind f) = some w') :
    ∃ handle, w.handles[h]? = some handle ∧ f handle = some w' :=
  Option.bind_eq_some_iff.mp hs

theorem step_sound (w : World) (e : Event) (w' : World) (hw : w.Sound) (hs : w.step e = some w') :
    w'.Sound := by
  cases e with
  | «open» =>
    cases hs
    refine ⟨fun handle hm c hc => ?_, hw.detached⟩
    rcases List.mem_append.mp hm with hm | hm
    · exact hw.calls handle hm c hc
    · rw [List.mem_singleton.mp hm] at hc
      cases hc
  | start h write =>
    obtain ⟨handle, hh, hs⟩ := bind_handle hs
    split at hs
    · cases hs
      exact hw.setCall h handle _ (fun c hc => by cases hc; exact prepare_prepared _ _)
    · cases hs
  | commit h =>
    obtain ⟨handle, hh, hs⟩ := bind_handle hs
    split at hs
    · rename_i task hc
      cases hs
      have hset := hw.setCall h handle (some ⟨task, some (task.commit w.disk).1⟩)
        (fun c hc' => by cases hc'; exact hw.call (c := ⟨task, none⟩) hh hc)
      exact ⟨hset.calls, hset.detached⟩
    · cases hs
  | fail h =>
    obtain ⟨handle, hh, hs⟩ := bind_handle hs
    split at hs
    · cases hs
      exact hw.setCall h handle none (by simp)
    · cases hs
  | finish h =>
    obtain ⟨handle, hh, hs⟩ := bind_handle hs
    split at hs
    · cases hs
      exact hw.setCall h _ none (by simp)
    · cases hs
  | drop h =>
    obtain ⟨handle, hh, hs⟩ := bind_handle hs
    split at hs
    · rename_i task hc
      cases hs
      have hset := hw.setCall h handle none (by simp)
      refine ⟨hset.calls, fun t ht => ?_⟩
      rcases List.mem_append.mp ht with ht | ht
      · exact hw.detached t ht
      · rw [List.mem_singleton.mp ht]
        exact hw.call hh hc
    · cases hs
      exact hw.setCall h handle none (by simp)
    · cases hs
  | commitDetached i =>
    obtain ⟨task, -, hs⟩ := Option.bind_eq_some_iff.mp hs
    cases hs
    exact ⟨hw.calls, fun t ht => hw.detached t (List.mem_of_mem_eraseIdx ht)⟩
  | failDetached i =>
    obtain ⟨task, -, hs⟩ := Option.bind_eq_some_iff.mp hs
    cases hs
    exact ⟨hw.calls, fun t ht => hw.detached t (List.mem_of_mem_eraseIdx ht)⟩

theorem run_sound {disk : Checkpoints} {es : List Event} {w : World}
    (h : Lib.Machine.run step (init disk) es = some w) : w.Sound :=
  Lib.Machine.run_invariant step_sound h (init_sound disk)

theorem Sound.locked {w : World} (hw : w.Sound) {e : Event} {task : Task}
    (h : w.locked e = some task) : task.Prepared := by
  cases e with
  | commit h' =>
    obtain ⟨handle, hh, hc⟩ := Option.bind_eq_some_iff.mp h
    obtain ⟨call, hcall, hc⟩ := Option.bind_eq_some_iff.mp hc
    split at hc
    · cases hc
    · cases hc
      exact hw.call hh hcall
  | commitDetached i => exact hw.detached task (List.mem_of_getElem? h)
  | _ => cases h

/-- What one event does to the file: the commit of the task it locks the file
for, or nothing. -/
theorem step_disk {w w' : World} {e : Event} (hs : w.step e = some w') :
    w'.disk = (w.locked e).elim w.disk fun task => (task.commit w.disk).2 := by
  cases e with
  | «open» => cases hs; rfl
  | start h write =>
    obtain ⟨handle, hh, hs⟩ := bind_handle hs
    split at hs <;> cases hs
    rfl
  | commit h =>
    obtain ⟨handle, hh, hs⟩ := bind_handle hs
    split at hs
    · rename_i task hc
      cases hs
      simp [locked, hh, hc]
    · cases hs
  | fail h =>
    obtain ⟨handle, hh, hs⟩ := bind_handle hs
    split at hs <;> cases hs
    rfl
  | finish h =>
    obtain ⟨handle, hh, hs⟩ := bind_handle hs
    split at hs <;> cases hs
    rfl
  | drop h =>
    obtain ⟨handle, hh, hs⟩ := bind_handle hs
    split at hs <;> cases hs <;> rfl
  | commitDetached i =>
    obtain ⟨task, ht, hs⟩ := Option.bind_eq_some_iff.mp hs
    cases hs
    simp [locked, ht]
  | failDetached i =>
    obtain ⟨task, ht, hs⟩ := Option.bind_eq_some_iff.mp hs
    cases hs
    rfl

/-- In every history, a put or delete leaves another key on disk as it was
exactly when the snapshot it was prepared from shows nothing for that key that
the disk lacks or has only at a lower sequence. -/
theorem frame_law (disk : Checkpoints) :
    Lib.Machine.Along step (fun w e w' =>
      (w.locked e = none → w'.disk = w.disk) ∧
      ∀ task, w.locked e = some task → ∀ k, k ≠ task.write.key →
        (w'.disk.lookup k = w.disk.lookup k ↔ Current task.preState w.disk k)) (init disk) := by
  intro es w e w' hrun hs
  have hdisk := step_disk hs
  refine ⟨fun hnone => by rw [hdisk, hnone]; rfl, fun task htask k hk => ?_⟩
  rw [hdisk, htask]
  exact Task.commit_other ((run_sound hrun).locked htask) w.disk hk

/-- Two handles have a key in their snapshots, one deletes it, and the other
brings it back by putting an unrelated key. -/
theorem frame_law_stale : ¬ ∀ disk, Lib.Machine.Along step (fun w e w' =>
    ∀ task, w.locked e = some task → ∀ k, k ≠ task.write.key →
      w'.disk.lookup k = w.disk.lookup k) (init disk) := by
  let deleted : ResumeKey := ⟨Vector.replicate 32 1, 1⟩
  let unrelated : ResumeKey := ⟨Vector.replicate 32 2, 1⟩
  let disk : Checkpoints := AList.singleton deleted ⟨5, none⟩
  let before : List Event := [.open, .open, .start 0 (.delete deleted), .commit 0, .finish 0,
    .start 1 (.put unrelated ⟨1, none⟩)]
  intro h
  have hframe := h disk before _ (.commit 1) _ rfl rfl _ rfl deleted (by decide)
  exact absurd hframe (by decide)

end World
end Aviso.State
