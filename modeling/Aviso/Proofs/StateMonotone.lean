import Aviso.Proofs.StateFile
import Mathlib.Data.List.Induction

namespace Aviso.State
namespace World

/-- What one event may do to the sequences on disk. -/
structure Monotone (w : World) (e : Event) (w' : World) : Prop where
  raises : ∀ k s s', w.disk.sequence k = some s → w'.disk.sequence k = some s' → s ≤ s'
  removes : ∀ k s, w.disk.sequence k = some s → w'.disk.sequence k = none →
    ∃ task seen, w.locked e = some task ∧ task.write = .delete k ∧
      task.preState.sequence k = some seen ∧ s ≤ seen
  puts : ∀ task k cp, w.locked e = some task → task.write = .put k cp →
    ∃ s, w'.disk.sequence k = some s ∧ cp.lastCommittedSequence ≤ s

theorem step_monotone {w w' : World} {e : Event} (hw : w.Sound) (hs : w.step e = some w') :
    Monotone w e w' := by
  have hdisk := step_disk hs
  cases hlocked : w.locked e with
  | none =>
    rw [hlocked, Option.elim_none] at hdisk
    refine ⟨fun k s s' h h' => ?_, fun k s h h' => ?_, fun task k cp h => ?_⟩
    · rw [hdisk, h] at h'
      cases h'
      exact Nat.le_refl _
    · rw [hdisk, h] at h'
      cases h'
    · rw [hlocked] at h
      cases h
  | some task =>
    rw [hlocked, Option.elim_some] at hdisk
    have ht := hw.locked hlocked
    refine ⟨fun k s s' h h' => ?_, fun k s h h' => ?_, fun task' k cp h hput => ?_⟩
    · exact Task.commit_monotone ht h (hdisk ▸ h')
    · obtain ⟨hdel, seen, hseen, hle⟩ := Task.commit_removes ht h (hdisk ▸ h')
      exact ⟨task, seen, hlocked, hdel, hseen, hle⟩
    · rw [hlocked] at h
      cases h
      rw [hdisk]
      exact Task.commit_put ht hput w.disk

/-- A delete of `k` takes it off the disk during these events. -/
def Removed (k : ResumeKey) (w : World) (es : List Event) : Prop :=
  ∃ pre e post mid mid' task, es = pre ++ e :: post ∧
    Lib.Machine.run step w pre = some mid ∧ mid.step e = some mid' ∧
    mid.locked e = some task ∧ task.write = .delete k ∧ mid'.disk.sequence k = none

/-- A sequence once on disk stays or grows, until its key is deleted. -/
theorem run_keeps {w w' : World} {es : List Event} {k : ResumeKey} {s : Nat} (hw : w.Sound)
    (hrun : Lib.Machine.run step w es = some w') (hs : w.disk.sequence k = some s) :
    (∃ s', w'.disk.sequence k = some s' ∧ s ≤ s') ∨ Removed k w es := by
  induction es generalizing w s with
  | nil => cases hrun; exact Or.inl ⟨s, hs, Nat.le_refl _⟩
  | cons e es ih =>
    obtain ⟨mid, hstep, hrest⟩ := Lib.Machine.run_cons hrun
    have hmono := step_monotone hw hstep
    cases hmid : mid.disk.sequence k with
    | none =>
      obtain ⟨task, -, hlocked, hdel, -, -⟩ := hmono.removes k s hs hmid
      exact Or.inr ⟨[], e, es, w, mid, task, rfl, rfl, hstep, hlocked, hdel, hmid⟩
    | some s₁ =>
      have hle := hmono.raises k s s₁ hs hmid
      rcases ih (step_sound w e mid hw hstep) hrest hmid with ⟨s', hs', hle'⟩ | hremoved
      · exact Or.inl ⟨s', hs', Nat.le_trans hle hle'⟩
      · obtain ⟨pre, e', post, m, m', task, rfl, hpre, hrem⟩ := hremoved
        exact Or.inr ⟨e :: pre, e', post, m, m', task, rfl,
          by simp [Lib.Machine.run, hstep, hpre], hrem⟩

/-- The call a handle is in. -/
def callOf (w : World) (h : Nat) : Option Call := w.handles[h]?.bind (·.call)

theorem callOf_setCall {w : World} {h₀ : Nat} {old : Handle} (hh : w.handles[h₀]? = some old)
    (handle : Handle) (call : Option Call) (h : Nat) :
    (w.setCall h₀ handle call).callOf h = if h = h₀ then call else w.callOf h := by
  have hlt : h₀ < w.handles.length := by
    rcases Nat.lt_or_ge h₀ w.handles.length with hlt | hge
    · exact hlt
    · rw [List.getElem?_eq_none hge] at hh
      cases hh
  unfold callOf setCall
  by_cases hk : h = h₀
  · subst hk
    simp [hlt]
  · simp [List.getElem?_set_ne (Ne.symm hk), hk]

/-- A call gets its merged state from its commit and from nowhere else. -/
theorem step_callOf {w w' : World} {e : Event} (hs : w.step e = some w') {h : Nat} {task : Task}
    {merged : Checkpoints} (hc : w'.callOf h = some ⟨task, some merged⟩) :
    (e = .commit h ∧ w.locked e = some task) ∨
      (e ≠ .commit h ∧ w.callOf h = some ⟨task, some merged⟩) := by
  cases e with
  | «open» =>
    cases hs
    refine Or.inr ⟨by simp, ?_⟩
    simp only [callOf, List.getElem?_append] at hc ⊢
    split at hc
    · exact hc
    · exfalso
      cases hi : h - w.handles.length <;> simp [hi] at hc
  | start h₀ write =>
    obtain ⟨handle, hh, hs⟩ := bind_handle hs
    split at hs <;> cases hs
    rw [callOf_setCall hh] at hc
    split at hc
    · cases hc
    · exact Or.inr ⟨by simp, hc⟩
  | commit h₀ =>
    obtain ⟨handle, hh, hs⟩ := bind_handle hs
    split at hs
    · rename_i task' hcall
      cases hs
      have hc' : (w.setCall h₀ handle (some ⟨task', some (task'.commit w.disk).1⟩)).callOf h =
        some ⟨task, some merged⟩ := hc
      rw [callOf_setCall hh] at hc'
      split at hc'
      · rename_i heq
        subst heq
        cases hc'
        exact Or.inl ⟨rfl, by simp [locked, hh, hcall]⟩
      · rename_i hne
        exact Or.inr ⟨fun heq => hne (by cases heq; rfl), hc'⟩
    · cases hs
  | fail h₀ =>
    obtain ⟨handle, hh, hs⟩ := bind_handle hs
    split at hs <;> cases hs
    rw [callOf_setCall hh] at hc
    split at hc
    · cases hc
    · exact Or.inr ⟨by simp, hc⟩
  | finish h₀ =>
    obtain ⟨handle, hh, hs⟩ := bind_handle hs
    split at hs <;> cases hs
    rw [callOf_setCall hh] at hc
    split at hc
    · cases hc
    · exact Or.inr ⟨by simp, hc⟩
  | drop h₀ =>
    obtain ⟨handle, hh, hs⟩ := bind_handle hs
    split at hs
    · cases hs
      have hc' : (w.setCall h₀ handle none).callOf h = some ⟨task, some merged⟩ := hc
      rw [callOf_setCall hh] at hc'
      split at hc'
      · cases hc'
      · exact Or.inr ⟨by simp, hc'⟩
    · cases hs
      rw [callOf_setCall hh] at hc
      split at hc
      · cases hc
      · exact Or.inr ⟨by simp, hc⟩
    · cases hs
  | commitDetached i =>
    obtain ⟨task', -, hs⟩ := Option.bind_eq_some_iff.mp hs
    cases hs
    exact Or.inr ⟨by simp, hc⟩
  | failDetached i =>
    obtain ⟨task', -, hs⟩ := Option.bind_eq_some_iff.mp hs
    cases hs
    exact Or.inr ⟨by simp, hc⟩

/-- A call with its merged state had its commit earlier in the run. -/
theorem run_committed {disk : Checkpoints} {es : List Event} {w : World} {h : Nat} {task : Task}
    {merged : Checkpoints} (hrun : Lib.Machine.run step (init disk) es = some w)
    (hc : w.callOf h = some ⟨task, some merged⟩) :
    ∃ pre post mid mid', es = pre ++ .commit h :: post ∧
      Lib.Machine.run step (init disk) pre = some mid ∧ mid.locked (.commit h) = some task ∧
      mid.step (.commit h) = some mid' ∧ Lib.Machine.run step mid' post = some w ∧
      .commit h ∉ post := by
  induction es using List.reverseRecOn generalizing w with
  | nil => cases hrun; simp [callOf, init] at hc
  | append_singleton es e ih =>
    obtain ⟨last, hlast, hone⟩ := Lib.Machine.run_append hrun
    obtain ⟨w', hs, hnil⟩ := Lib.Machine.run_cons hone
    cases hnil
    rcases step_callOf hs hc with ⟨rfl, hlocked⟩ | ⟨hne, hc'⟩
    · exact ⟨es, [], last, w, rfl, hlast, hlocked, hs, rfl, by simp⟩
    · obtain ⟨pre, post, mid, mid', rfl, hpre, hlocked, hcommit, hpost, hno⟩ := ih hlast hc'
      refine ⟨pre, post ++ [e], mid, mid', by simp, hpre, hlocked, hcommit, ?_, ?_⟩
      · exact Lib.Machine.run_snoc hpost hs
      · simp [hno, Ne.symm hne]

/-- The put a handle returns from had its key on disk at its sequence or higher
when it held the file lock, the last time that handle did. -/
def Landed (disk : Checkpoints) (es : List Event) (h : Nat) (k : ResumeKey) (cp : Checkpoint)
    (final : Checkpoints) : Prop :=
  ∃ pre post mid mid' task, es = pre ++ .commit h :: post ∧ .commit h ∉ post ∧
    Lib.Machine.run step (init disk) pre = some mid ∧ mid.step (.commit h) = some mid' ∧
    mid.locked (.commit h) = some task ∧ task.write = .put k cp ∧
    (∃ s, mid'.disk.sequence k = some s ∧ cp.lastCommittedSequence ≤ s) ∧
    ((∃ s, final.sequence k = some s ∧ cp.lastCommittedSequence ≤ s) ∨ Removed k mid' post)

/-- In every interleaving, no event lowers a sequence on disk, only the delete
of a key by a handle that saw it takes it off, and a put that returns has been
on disk at its sequence or higher since its commit, up to a later delete. -/
theorem multi_handle_monotone (disk : Checkpoints) :
    Lib.Machine.Along step Monotone (init disk) ∧
      ∀ es w h w', Lib.Machine.run step (init disk) es = some w →
        w.step (.finish h) = some w' → ∀ k cp, w.returned (.finish h) = some (.put k cp) →
          Landed disk es h k cp w'.disk := by
  refine ⟨fun es w e w' hrun hs => step_monotone (run_sound hrun) hs,
    fun es w h w' hrun hs k cp hret => ?_⟩
  obtain ⟨task, merged, hc, hput⟩ : ∃ task merged,
      w.callOf h = some ⟨task, some merged⟩ ∧ task.write = .put k cp := by
    obtain ⟨handle, hh, hret⟩ := Option.bind_eq_some_iff.mp hret
    obtain ⟨call, hcall, hret⟩ := Option.bind_eq_some_iff.mp hret
    obtain ⟨task, merged⟩ := call
    cases merged with
    | none => cases hret
    | some merged =>
      exact ⟨task, merged, by simp [callOf, hh, hcall], by simpa using hret⟩
  obtain ⟨pre, post, mid, mid', rfl, hpre, hlocked, hcommit, hpost, hno⟩ := run_committed hrun hc
  have hsound := run_sound hpre
  obtain ⟨s, hseq, hle⟩ := (step_monotone hsound hcommit).puts task k cp hlocked hput
  refine ⟨pre, post, mid, mid', task, rfl, hno, hpre, hcommit, hlocked, hput, ⟨s, hseq, hle⟩, ?_⟩
  have hdisk : w'.disk = w.disk := step_disk hs
  rw [hdisk]
  rcases run_keeps (step_sound mid _ mid' hsound hcommit) hpost hseq with ⟨s', hs', hle'⟩ | hrem
  · exact Or.inl ⟨s', hs', Nat.le_trans hle hle'⟩
  · exact Or.inr hrem

theorem multi_handle_monotone_put : ∃ final,
    Landed ∅ [.open, .start 0 (.put ⟨Vector.replicate 32 1, 1⟩ ⟨5, none⟩), .commit 0] 0
      ⟨Vector.replicate 32 1, 1⟩ ⟨5, none⟩ final :=
  ⟨_, (multi_handle_monotone ∅).2 _ _ 0 _ rfl rfl ⟨Vector.replicate 32 1, 1⟩ ⟨5, none⟩ (by decide)⟩

/-- Between the commit of a put and its return another handle deletes the key. -/
theorem multi_handle_deleted : ¬ ∀ disk, Lib.Machine.Along step (fun w e w' =>
    ∀ k cp, w.returned e = some (.put k cp) →
      ∃ s, w'.disk.sequence k = some s ∧ cp.lastCommittedSequence ≤ s) (init disk) := by
  let key : ResumeKey := ⟨Vector.replicate 32 1, 1⟩
  let before : List Event := [.open, .start 0 (.put key ⟨5, none⟩), .commit 0, .open,
    .start 1 (.delete key), .commit 1]
  intro h
  obtain ⟨s, hs, -⟩ := h ∅ before _ (.finish 0) _ rfl rfl key ⟨5, none⟩ (by decide)
  exact absurd (hs.symm.trans (show _ = none by decide)) (by simp)

end World
end Aviso.State
