import Aviso.State.Shared
import Aviso.Lib.Cells
import Aviso.Proofs.StoreRefinement

namespace Aviso.State.Shared

variable {codec : Codec β}

section Calls

variable {w w' : Shared β} {h : Nat} {t : RunningTask β}

/-- A step of the call of the store `h`. -/
def about (h : Nat) : SharedEvent → Bool
  | .advance (.caller h') _ => h' = h
  | _ => false

/-- The call of the store `h` returns, or is dropped. -/
def ends (h : Nat) : SharedEvent → Bool
  | .finish h' | .drop h' => h' = h
  | _ => false

/-- The world without the call of the store `h`. -/
def hide (w : Shared β) (h : Nat) : Shared β := w.setCall h none

theorem stores_of_call (hcall : w.callOf h = some t) : ∃ s, w.stores[h]? = some s ∧ s.call = some t :=
  Option.bind_eq_some_iff.mp hcall

theorem callOf_setCall (hcall : w.callOf h = some t) (call : Option (RunningTask β)) :
    (w.setCall h call).callOf h = call := by
  obtain ⟨s, hs, -⟩ := stores_of_call hcall
  simp [callOf, setCall, hs]

theorem callOf_setCall_ne (w : Shared β) (call : Option (RunningTask β)) (hne : h' ≠ h) :
    (w.setCall h' call).callOf h = w.callOf h := by
  rw [callOf, callOf, setCall, List.getElem?_modify_ne _ _ hne]

theorem setCall_setCall (w : Shared β) (h : Nat) (call call' : Option (RunningTask β)) :
    (w.setCall h call).setCall h call' = w.setCall h call' := by
  simp only [setCall, List.modify_modify_eq]
  rfl

theorem setCall_comm (w : Shared β) (hne : h' ≠ h) (call call' : Option (RunningTask β)) :
    (w.setCall h' call).setCall h call' = (w.setCall h call').setCall h' call := by
  simp only [setCall, List.modify_modify_ne _ _ _ hne]

theorem setCall_same (hs : w.stores[h]? = some s) : w.setCall h s.call = w := by
  have hstores : w.stores.modify h (fun s' => { s' with call := s.call }) = w.stores := by
    apply List.ext_getElem?
    intro i
    rw [List.getElem?_modify]
    by_cases hi : h = i
    · subst hi
      simp [hs]
    · simp [hi]
  rw [setCall, hstores]

/-- The tasks in flight, when a store changes its call. -/
theorem tasks_modify (hs : w.stores[h]? = some s) :
    ∃ rest, w.tasks.Perm (s.call.toList ++ rest) ∧
      ∀ f : Store β → Store β, ({ w with stores := w.stores.modify h f } : Shared β).tasks.Perm
        ((f s).call.toList ++ rest) := by
  obtain ⟨calls, hbefore, hafter⟩ := Lib.perm_modify Store.call hs
  refine ⟨calls ++ w.detached, ?_, ?_⟩
  · rw [← List.append_assoc]
    exact hbefore.append_right w.detached
  · intro f
    rw [← List.append_assoc]
    exact (hafter f).append_right w.detached

theorem tasks_detached (hi : w.detached[i]? = some t) :
    ∃ rest, w.tasks.Perm (t :: rest) ∧ (∀ t', (w.setTask (.nobody i) t').tasks.Perm (t' :: rest)) ∧
      ({ w with detached := w.detached.eraseIdx i } : Shared β).tasks.Perm rest := by
  obtain ⟨hlt, rfl⟩ := List.getElem?_eq_some_iff.mp hi
  refine ⟨w.stores.filterMap (·.call) ++ w.detached.eraseIdx i, ?_, ?_, List.Perm.refl _⟩
  · have hself := (List.getElem_cons_eraseIdx_perm hlt).symm
    exact (hself.append_left (w.stores.filterMap (·.call))).trans List.perm_middle
  · intro t'
    have hset := List.set_perm_cons_eraseIdx hlt t'
    exact (hset.append_left (w.stores.filterMap (·.call))).trans List.perm_middle

theorem tasks_at (hat : w.taskAt owner = some t) :
    ∃ rest, w.tasks.Perm (t :: rest) ∧ ∀ t', (w.setTask owner t').tasks.Perm (t' :: rest) := by
  cases owner with
  | caller h =>
    obtain ⟨s, hs, hst⟩ := stores_of_call hat
    obtain ⟨rest, hbefore, hafter⟩ := tasks_modify hs
    rw [hst] at hbefore
    exact ⟨rest, hbefore, fun t' => hafter fun s => { s with call := some t' }⟩
  | nobody i =>
    obtain ⟨rest, hbefore, hafter, -⟩ := tasks_detached hat
    exact ⟨rest, hbefore, hafter⟩

/-- Without the call of a store the lock is at least as free. -/
theorem free_hide (hcall : w.callOf h = some t) (hfree : w.free = true) : (w.hide h).free = true := by
  obtain ⟨s, hs, hst⟩ := stores_of_call hcall
  obtain ⟨rest, hbefore, hafter⟩ := tasks_modify hs
  rw [free, List.all_eq_true] at hfree ⊢
  intro t' ht'
  have hrest : t' ∈ rest := (hafter fun s => { s with call := none }).mem_iff.mp ht'
  exact hfree t' (hbefore.mem_iff.mpr (List.mem_append_right _ hrest))

end Calls

section Tasks

variable {disk disk' : Option β} {stage stage' : TaskStage β} {task : Task} {faults : Faults} {free free' : Bool}

/-- The lock is only asked for, never needed to be taken. -/
theorem advance_free (hstep : stage.advance codec disk free faults task = some next)
    (hfree : free = true → free' = true) : stage.advance codec disk free' faults task = some next := by
  cases stage with
  | opened =>
    simp only [TaskStage.advance] at hstep ⊢
    split at hstep
    · exact hstep
    · split at hstep
      · rename_i hfr
        rw [if_pos (hfree hfr)]
        exact hstep
      · cases hstep
  | _ => exact hstep

/-- A step that does not end its task well leaves the file alone. -/
theorem advance_disk (hstep : stage.advance codec disk free faults task = some (stage', disk'))
    (hfails : ∀ merged, stage' ≠ .done (.ok merged)) : disk' = disk := by
  cases stage with
  | spawned =>
    simp only [TaskStage.advance] at hstep
    split at hstep <;> cases hstep <;> rfl
  | opened =>
    simp only [TaskStage.advance] at hstep
    split at hstep
    · cases hstep
      rfl
    · split at hstep <;> cases hstep
      rfl
  | locked =>
    simp only [TaskStage.advance] at hstep
    split at hstep <;> cases hstep <;> rfl
  | loaded diskState =>
    simp only [TaskStage.advance] at hstep
    split at hstep
    · cases hstep
      rfl
    · split at hstep <;> cases hstep <;> rfl
  | encoded merged bytes =>
    simp only [TaskStage.advance] at hstep
    split at hstep
    · cases hstep
      rfl
    · cases hstep
      exact absurd rfl (hfails merged)
  | done result => cases hstep

end Tasks

section Steps

variable {w w' : Shared β} {h : Nat} {t : RunningTask β} {event : SharedEvent}

theorem modify_concat {α : Type} {l : List α} (x : α) (f : α → α) (hi : i < l.length) :
    (l ++ [x]).modify i f = l.modify i f ++ [x] := by
  rw [List.modify_eq_take_cons_drop (by simp; omega), List.modify_eq_take_cons_drop hi]
  simp [List.take_append_of_le_length hi.le, List.getElem_append_left hi,
    List.drop_append_of_le_length (Nat.succ_le_of_lt hi)]

/-- A step of somebody else goes as it would without the call. -/
theorem step_other (hcall : w.callOf h = some t) (habout : about h event = false) (hends : ends h event = false)
    (hstep : step codec w event = some w') :
    w'.callOf h = some t ∧ step codec (w.hide h) event = some (w'.hide h) := by
  obtain ⟨s, hs, hst⟩ := stores_of_call hcall
  obtain ⟨hlt, -⟩ := List.getElem?_eq_some_iff.mp hs
  cases event with
  | «open» faults =>
    have hdisk : (w.hide h).disk = w.disk := rfl
    simp only [step, hdisk] at hstep ⊢
    split at hstep
    · cases hstep
      exact ⟨hcall, rfl⟩
    · rename_i initial hload
      cases hstep
      refine ⟨?_, ?_⟩
      · rw [callOf, List.getElem?_append_left hlt]
        exact hcall
      · simp only [hide, setCall, modify_concat _ _ hlt]
  | start h' write =>
    have hne : h' ≠ h := by
      rintro rfl
      simp only [step, hs, Option.bind_some, hst] at hstep
      cases hstep
    have hstores : (w.hide h).stores[h']? = w.stores[h']? := List.getElem?_modify_ne _ _ hne.symm
    simp only [step, hstores] at hstep ⊢
    obtain ⟨s', hs', hstep⟩ := Option.bind_eq_some_iff.mp hstep
    rw [hs', Option.bind_some]
    split at hstep
    · cases hstep
      refine ⟨(callOf_setCall_ne w _ hne).trans hcall, ?_⟩
      rw [hide, hide, setCall_comm _ hne.symm]
    · cases hstep
  | advance owner faults =>
    have hat : (w.hide h).taskAt owner = w.taskAt owner := by
      cases owner with
      | caller h' =>
        have hne : h ≠ h' := by
          rintro rfl
          simp [about] at habout
        exact callOf_setCall_ne w none hne
      | nobody i => rfl
    simp only [step, hat] at hstep ⊢
    obtain ⟨t', ht', hstep⟩ := Option.bind_eq_some_iff.mp hstep
    obtain ⟨⟨stage, disk⟩, hadvance, heq⟩ := Option.map_eq_some_iff.mp hstep
    subst heq
    have hhidden := advance_free hadvance (free_hide hcall)
    rw [ht', Option.bind_some]
    refine ⟨?_, ?_⟩
    · cases owner with
      | caller h' =>
        have hne : h' ≠ h := by
          rintro rfl
          simp [about] at habout
        exact (callOf_setCall_ne w _ hne).trans hcall
      | nobody i => exact hcall
    · have hset (t' : RunningTask β) : (w.hide h).setTask owner t' = (w.setTask owner t').hide h := by
        cases owner with
        | caller h' =>
          have hne : h ≠ h' := by
            rintro rfl
            simp [about] at habout
          exact setCall_comm w hne none (some t')
        | nobody i => rfl
      have hdisk : (w.hide h).disk = w.disk := rfl
      rw [hdisk, hhidden, Option.map_some, hset]
      rfl
  | finish h' =>
    have hne : h ≠ h' := by
      rintro rfl
      simp [ends] at hends
    simp only [step, hide, callOf_setCall_ne w none hne] at hstep ⊢
    obtain ⟨t', ht', hstep⟩ := Option.bind_eq_some_iff.mp hstep
    rw [ht', Option.bind_some]
    split at hstep
    · cases hstep
      refine ⟨?_, ?_⟩
      · rw [install, callOf, List.getElem?_modify_ne _ _ hne.symm]
        exact hcall
      · simp only [install, setCall, List.modify_modify_ne _ _ _ hne]
    · cases hstep
      exact ⟨(callOf_setCall_ne w none hne.symm).trans hcall, congrArg some (setCall_comm w hne none none)⟩
    · cases hstep
  | drop h' =>
    have hne : h ≠ h' := by
      rintro rfl
      simp [ends] at hends
    simp only [step, hide, callOf_setCall_ne w none hne] at hstep ⊢
    obtain ⟨t', ht', heq⟩ := Option.map_eq_some_iff.mp hstep
    subst heq
    refine ⟨(callOf_setCall_ne w none hne.symm).trans hcall, ?_⟩
    rw [ht', Option.map_some, setCall_comm w hne]
    rfl
  | kill i =>
    obtain ⟨t', ht', heq⟩ := Option.map_eq_some_iff.mp hstep
    subst heq
    refine ⟨hcall, ?_⟩
    have hdetached : (w.hide h).detached = w.detached := rfl
    simp only [step, hdetached, ht', Option.map_some]
    rfl

/-- A step of the call itself. -/
theorem step_about (hcall : w.callOf h = some t) (habout : about h event = true)
    (hstep : step codec w event = some w') :
    ∃ faults stage disk, event = .advance (.caller h) faults ∧
      t.stage.advance codec w.disk w.free faults t.task = some (stage, disk) ∧
      w' = { w.setCall h (some { t with stage := stage }) with disk := disk } ∧
      w'.callOf h = some { t with stage := stage } := by
  cases event with
  | advance owner faults =>
    cases owner with
    | caller h' =>
      have hh : h' = h := by simpa [about] using habout
      subst hh
      simp only [step, taskAt, hcall, Option.bind_some] at hstep
      obtain ⟨⟨stage, disk⟩, hadvance, heq⟩ := Option.map_eq_some_iff.mp hstep
      subst heq
      exact ⟨faults, stage, disk, rfl, hadvance, rfl, callOf_setCall hcall _⟩
    | nobody i => cases habout
  | _ => cases habout

end Steps

section Runs

variable {w w' : Shared β} {h : Nat} {t : RunningTask β} {during : List SharedEvent}

/-- A task that is done stays as it is until its call returns. -/
theorem run_done (hcall : w.callOf h = some t) (hdone : t.stage = .done result)
    (hends : ∀ event ∈ during, ends h event = false) (hrun : Lib.Machine.run (step codec) w during = some w') :
    w'.callOf h = some t := by
  induction during generalizing w with
  | nil =>
    cases hrun
    exact hcall
  | cons event during ih =>
    obtain ⟨mid, hstep, hrest⟩ := Lib.Machine.run_cons hrun
    refine ih ?_ (fun event he => hends event (List.mem_cons_of_mem _ he)) hrest
    cases habout : about h event with
    | false => exact (step_other hcall habout (hends event List.mem_cons_self) hstep).1
    | true =>
      obtain ⟨faults, stage, disk, -, hadvance, -⟩ := step_about hcall habout hstep
      rw [hdone] at hadvance
      cases hadvance

/-- A call goes on until it returns or is dropped. -/
theorem run_call (hcall : w.callOf h = some t) (hends : ∀ event ∈ during, ends h event = false)
    (hrun : Lib.Machine.run (step codec) w during = some w') : ∃ t', w'.callOf h = some t' := by
  induction during generalizing w t with
  | nil =>
    cases hrun
    exact ⟨t, hcall⟩
  | cons event during ih =>
    obtain ⟨mid, hstep, hrest⟩ := Lib.Machine.run_cons hrun
    have hends' : ∀ event ∈ during, ends h event = false := fun event he => hends event (List.mem_cons_of_mem _ he)
    cases habout : about h event with
    | false => exact ih (step_other hcall habout (hends event List.mem_cons_self) hstep).1 hends' hrest
    | true =>
      obtain ⟨faults, stage, disk, -, -, -, hnext⟩ := step_about hcall habout hstep
      exact ih hnext hends' hrest

/-- A call that will fail can be left out of the run so far. -/
theorem run_hide (hcall : w.callOf h = some t) (hends : ∀ event ∈ during, ends h event = false)
    (hrun : Lib.Machine.run (step codec) w during = some w')
    (hfails : ∀ t', w'.callOf h = some t' → ∀ merged, t'.stage ≠ .done (.ok merged)) :
    Lib.Machine.run (step codec) (w.hide h) (during.filter fun event => !about h event) = some (w'.hide h) := by
  induction during generalizing w t with
  | nil =>
    cases hrun
    rfl
  | cons event during ih =>
    obtain ⟨mid, hstep, hrest⟩ := Lib.Machine.run_cons hrun
    have hends' : ∀ event ∈ during, ends h event = false := fun event he => hends event (List.mem_cons_of_mem _ he)
    cases habout : about h event with
    | false =>
      obtain ⟨hstays, hhidden⟩ := step_other hcall habout (hends event List.mem_cons_self) hstep
      rw [List.filter_cons_of_pos (by simp [habout]), Lib.Machine.run, hhidden]
      exact ih hstays hends' hrest
    | true =>
      obtain ⟨faults, stage, disk, -, hadvance, rfl, hnext⟩ := step_about hcall habout hstep
      rw [List.filter_cons_of_neg (by simp [habout])]
      have hdisk : disk = w.disk := by
        refine advance_disk hadvance ?_
        rintro merged rfl
        exact hfails _ (run_done hnext rfl hends' hrest) merged rfl
      subst hdisk
      have hhide : Shared.hide { w.setCall h (some { t with stage := stage }) with disk := w.disk } h = w.hide h :=
        setCall_setCall w h _ none
      rw [← hhide]
      exact ih hnext hends' hrest

/-- No step of the call of the store `h` changes the file. -/
def Quiet (codec : Codec β) (h : Nat) (w : Shared β) (during : List SharedEvent) : Prop :=
  ∀ before event after mid mid', during = before ++ event :: after → about h event = true →
    Lib.Machine.run (step codec) w before = some mid → step codec mid event = some mid' → mid'.disk = mid.disk

theorem run_quiet (hcall : w.callOf h = some t) (hends : ∀ event ∈ during, ends h event = false)
    (hrun : Lib.Machine.run (step codec) w during = some w')
    (hfails : ∀ t', w'.callOf h = some t' → ∀ merged, t'.stage ≠ .done (.ok merged)) : Quiet codec h w during := by
  intro before event after mid mid' hsplit habout hbefore hstep
  subst hsplit
  have hmid : ∃ t', mid.callOf h = some t' := by
    have hends' : ∀ event ∈ before, ends h event = false := fun e he => hends e (List.mem_append_left _ he)
    exact run_call hcall hends' hbefore
  obtain ⟨t', hcall'⟩ := hmid
  obtain ⟨faults, stage, disk, -, hadvance, rfl, hnext⟩ := step_about hcall' habout hstep
  refine advance_disk hadvance ?_
  rintro merged rfl
  rw [Lib.Machine.run_append_bind, hbefore, Option.bind_some, Lib.Machine.run, hstep] at hrun
  have hends' : ∀ event ∈ after, ends h event = false :=
    fun e he => hends e (List.mem_append_right _ (List.mem_cons_of_mem _ he))
  exact hfails _ (run_done hnext rfl hends' hrun) merged rfl

/-- The snapshot of a store. -/
def innerOf (w : Shared β) (h : Nat) : Option Checkpoints := w.stores[h]?.map (·.inner)

theorem innerOf_setCall (w : Shared β) (h h' : Nat) (call : Option (RunningTask β)) :
    (w.setCall h' call).innerOf h = w.innerOf h := by
  rw [innerOf, innerOf, setCall, List.getElem?_modify]
  cases w.stores[h]? with
  | none => rfl
  | some s => by_cases hh : h' = h <;> simp [hh]

/-- No snapshot changes but by a call of its own that returns. -/
theorem step_innerOf {inner : Checkpoints} (hinner : w.innerOf h = some inner) (hends : ends h event = false)
    (hstep : step codec w event = some w') : w'.innerOf h = some inner := by
  cases event with
  | «open» faults =>
    simp only [step] at hstep
    split at hstep
    · cases hstep
      exact hinner
    · cases hstep
      obtain ⟨s, hs, -⟩ := Option.map_eq_some_iff.mp hinner
      obtain ⟨hlt, -⟩ := List.getElem?_eq_some_iff.mp hs
      rw [innerOf, List.getElem?_append_left hlt]
      exact hinner
  | start h' write =>
    obtain ⟨s, hs, hstep⟩ := Option.bind_eq_some_iff.mp hstep
    split at hstep
    · cases hstep
      rw [innerOf_setCall]
      exact hinner
    · cases hstep
  | advance owner faults =>
    obtain ⟨t, ht, hstep⟩ := Option.bind_eq_some_iff.mp hstep
    obtain ⟨⟨stage, disk⟩, -, rfl⟩ := Option.map_eq_some_iff.mp hstep
    cases owner with
    | caller h' => exact (innerOf_setCall w h h' _).trans hinner
    | nobody i => exact hinner
  | finish h' =>
    have hne : h' ≠ h := by
      rintro rfl
      simp [ends] at hends
    obtain ⟨t, ht, hstep⟩ := Option.bind_eq_some_iff.mp hstep
    split at hstep
    · cases hstep
      rw [innerOf, install, List.getElem?_modify_ne _ _ hne]
      exact hinner
    · cases hstep
      rw [innerOf_setCall]
      exact hinner
    · cases hstep
  | drop h' =>
    obtain ⟨t, ht, rfl⟩ := Option.map_eq_some_iff.mp hstep
    exact (innerOf_setCall w h h' none).trans hinner
  | kill i =>
    obtain ⟨t, ht, rfl⟩ := Option.map_eq_some_iff.mp hstep
    exact hinner

theorem run_innerOf {inner : Checkpoints} (hinner : w.innerOf h = some inner) (hends : ∀ event ∈ during, ends h event = false)
    (hrun : Lib.Machine.run (step codec) w during = some w') : w'.innerOf h = some inner := by
  induction during generalizing w with
  | nil =>
    cases hrun
    exact hinner
  | cons event during ih =>
    obtain ⟨mid, hstep, hrest⟩ := Lib.Machine.run_cons hrun
    exact ih (step_innerOf hinner (hends event List.mem_cons_self) hstep)
      (fun event he => hends event (List.mem_cons_of_mem _ he)) hrest

theorem start_call {write : CurrentWrite} (hstart : step codec w (.start h write) = some w') :
    ∃ inner, w.innerOf h = some inner ∧ w'.innerOf h = some inner ∧
      w'.callOf h = some ⟨prepare inner write, .spawned⟩ ∧ w'.hide h = w := by
  obtain ⟨s, hs, hstart⟩ := Option.bind_eq_some_iff.mp hstart
  split at hstart
  · rename_i hnone
    cases hstart
    have hinner : w.innerOf h = some s.inner := by rw [innerOf, hs, Option.map_some]
    refine ⟨s.inner, hinner, (innerOf_setCall w h h _).trans hinner, ?_, ?_⟩
    · simp [callOf, setCall, hs]
    · rw [hide, setCall_setCall, ← hnone]
      exact setCall_same hs
  · cases hstart

/-- A call that returns an error leaves the world as it would be without it. -/
theorem failed_call {write : CurrentWrite} (hstart : step codec w (.start h write) = some w₁)
    (hrun : Lib.Machine.run (step codec) w₁ during = some w₂) (hends : ∀ event ∈ during, ends h event = false)
    (hreturned : w₂.returned h = some (.error e)) (hfinish : step codec w₂ (.finish h) = some w') :
    Lib.Machine.run (step codec) w (during.filter fun event => !about h event) = some w' ∧
      w'.innerOf h = w.innerOf h ∧ Quiet codec h w₁ during := by
  obtain ⟨inner, hinner, hinner₁, hcall, hhide⟩ := start_call hstart
  obtain ⟨t, ht, hresult⟩ := Option.bind_eq_some_iff.mp hreturned
  have hstage : ∃ e', t.stage = .done (.error e') := by
    split at hresult
    · rename_i result hdone
      cases result with
      | ok merged => cases hresult
      | error e' => exact ⟨e', hdone⟩
    · cases hresult
  obtain ⟨e', hdone⟩ := hstage
  have hend : w' = w₂.hide h := by
    simp only [step, ht, Option.bind_some, hdone] at hfinish
    exact (Option.some.inj hfinish).symm
  subst hend
  have hfails : ∀ t', w₂.callOf h = some t' → ∀ merged, t'.stage ≠ .done (.ok merged) := by
    intro t' ht' merged hok
    cases ht.symm.trans ht'
    rw [hdone] at hok
    cases hok
  refine ⟨?_, ?_, run_quiet hcall hends hrun hfails⟩
  · have hhidden := run_hide hcall hends hrun hfails
    rwa [hhide] at hhidden
  · rw [hinner]
    exact (innerOf_setCall w₂ h h none).trans (run_innerOf hinner₁ hends hrun)

end Runs

section Contents

/-- A map is what the file reads as. -/
def Holds (codec : Codec β) (disk : Option β) (m : Checkpoints) : Prop :=
  ∃ read, codec.loadFromDisk .none disk = .ok read ∧ ∀ k, m.lookup k = read.lookup k

variable {disk : Option β} {read : Checkpoints} {faults : Faults}

/-- What a read gives does not depend on what might have failed. -/
theorem load_none (h : codec.loadFromDisk faults disk = .ok read) : codec.loadFromDisk .none disk = .ok read := by
  unfold Codec.loadFromDisk at h ⊢
  split at h
  · cases h
  · split at h
    · cases h
    · exact h
  · exact h

theorem load_current (h : codec.loadFromDisk faults disk = .ok read) : Codec.Current read := by
  unfold Codec.loadFromDisk at h
  split at h
  · cases h
  · split at h
    · cases h
    · cases h
      exact fun _ _ => AList.lookup_empty _
  · split at h
    · cases h
    · split at h
      · cases h
      · split at h
        · cases h
        · rename_i hversion
          rw [not_not.mp hversion] at h
          exact Codec.decodeEntries_current h fun _ _ => AList.lookup_empty _

theorem decodeEntries_names {entries : List (Sigma fun _ : Text => Checkpoint)}
    (hnames : ∀ e ∈ entries, codec.Names version e.1) (map : Checkpoints) :
    ∃ read, codec.decodeEntries version entries map = .ok read := by
  induction entries generalizing map with
  | nil => exact ⟨map, rfl⟩
  | cons e entries ih =>
    obtain ⟨hexKey, cp⟩ := e
    obtain ⟨key, hversion, hhex⟩ := hnames ⟨hexKey, cp⟩ List.mem_cons_self
    have hdecode : codec.decodeKey version hexKey = .ok key := by
      have hkey := codec.decodeKey_asHex key
      rwa [hversion, hhex] at hkey
    simp only [Codec.decodeEntries, hdecode]
    exact ih (fun e he => hnames e (List.mem_cons_of_mem _ he)) _

/-- What is written reads back. -/
theorem written_holds {merged : Checkpoints} (hcurrent : Codec.Current merged)
    (hbytes : codec.toVec (codec.fileOf merged) = .ok bytes) : Holds codec (some bytes) merged := by
  have hshows := Codec.toVec_shows hbytes hcurrent
  obtain ⟨file, hfile, hholds⟩ := id hshows
  obtain ⟨file', hfile', hversion, hkeyVersion, -⟩ := codec.fromSlice_toVec hbytes
  cases hfile.symm.trans hfile'
  have hnames : ∀ e ∈ file.checkpoints.entries, codec.Names keyFormatVersion e.1 :=
    fun e he => hholds.names e.1 (List.mem_keys_of_mem he)
  obtain ⟨read, hread⟩ := decodeEntries_names hnames ∅
  have hload : codec.loadFromDisk .none (some bytes) = .ok read := by
    simp only [Codec.loadFromDisk, Faults.none, hfile]
    rw [hversion, hkeyVersion]
    exact hread
  exact ⟨read, hload, fun k => (Codec.load_shows hload hshows hcurrent k).symm⟩

theorem current_prepare {inner : Checkpoints} (hinner : Codec.Current inner) (write : CurrentWrite) :
    Codec.Current (prepare inner write).candidate := by
  intro k hk
  have hne : k ≠ write.1.key := fun heq => hk (heq ▸ write.2)
  rw [(prepare_other inner write.1 hne).1]
  exact hinner k hk

theorem current_merge {candidate disk : Checkpoints} (hcandidate : Codec.Current candidate)
    (hdisk : Codec.Current disk) (deletes : Lib.Table ResumeKey Nat) :
    Codec.Current (mergeMonotonic candidate disk deletes) := by
  intro k hk
  rw [lookup_merge, hdisk k hk, Option.elim_none]
  exact hcandidate k hk

end Contents

section Invariant

variable {w w' : Shared β} {h : Nat} {t : RunningTask β} {event : SharedEvent} {stage : TaskStage β}
  {disk : Option β}

/-- What a task knows about the file and its merged state. -/
def Knows (codec : Codec β) (disk : Option β) : TaskStage β → Prop
  | .loaded diskState => codec.loadFromDisk .none disk = .ok diskState
  | .encoded merged bytes => Codec.Current merged ∧ codec.toVec (codec.fileOf merged) = .ok bytes
  | .done (.ok merged) => Codec.Current merged
  | .spawned | .opened | .locked | .done (.error _) => True

/-- Every map has keys of this version, and the file changes only in the hands of the one task
that has its lock. -/
structure Sound (codec : Codec β) (w : Shared β) : Prop where
  inner : ∀ s ∈ w.stores, Codec.Current s.inner
  candidate : ∀ t ∈ w.tasks, Codec.Current t.task.candidate
  knows : ∀ t ∈ w.tasks, Knows codec w.disk t.stage
  exclusive : (w.tasks.filter fun t => t.stage.holdsLock).length ≤ 1

theorem init_sound (codec : Codec β) (disk : Option β) : Sound codec (init disk) where
  inner := by intro s hs; cases hs
  candidate := by intro t ht; cases ht
  knows := by intro t ht; cases ht
  exclusive := Nat.zero_le _

/-- Without the lock a task knows nothing of the file that could change. -/
theorem knows_unlocked {stage : TaskStage β} {disk disk' : Option β} (h : Knows codec disk stage)
    (hlock : stage.holdsLock = false) : Knows codec disk' stage := by
  cases stage with
  | locked | loaded | encoded => cases hlock
  | done result => cases result <;> exact h
  | _ => exact h

/-- What a step of a task makes of what it knows, and the file. -/
theorem advance_knows {stage stage' : TaskStage β} {task : Task} {disk disk' : Option β} {free : Bool}
    (hcandidate : Codec.Current task.candidate) (hknows : Knows codec disk stage)
    (hstep : stage.advance codec disk free faults task = some (stage', disk')) :
    Knows codec disk' stage' ∧ (disk' = disk ∨ stage.holdsLock = true) ∧
      (stage'.holdsLock = true → stage.holdsLock = true ∨ free = true) ∧
      ∀ merged, stage' = .done (.ok merged) → Holds codec disk' merged := by
  cases stage with
  | spawned =>
    simp only [TaskStage.advance] at hstep
    split at hstep <;> cases hstep <;> exact ⟨trivial, .inl rfl, by simp [TaskStage.holdsLock], by simp⟩
  | opened =>
    simp only [TaskStage.advance] at hstep
    split at hstep
    · cases hstep
      exact ⟨trivial, .inl rfl, by simp [TaskStage.holdsLock], by simp⟩
    · split at hstep
      · rename_i hfree
        cases hstep
        exact ⟨trivial, .inl rfl, fun _ => .inr hfree, by simp⟩
      · cases hstep
  | locked =>
    simp only [TaskStage.advance] at hstep
    split at hstep
    · cases hstep
      exact ⟨trivial, .inl rfl, fun _ => .inl rfl, by simp⟩
    · rename_i diskState hload
      cases hstep
      exact ⟨load_none hload, .inl rfl, fun _ => .inl rfl, by simp⟩
  | loaded diskState =>
    have hmerged := current_merge hcandidate (load_current hknows) task.deletes
    simp only [TaskStage.advance] at hstep
    split at hstep
    · rename_i hsame
      cases hstep
      refine ⟨hmerged, .inl rfl, fun _ => .inl rfl, ?_⟩
      rintro merged ⟨⟩
      exact ⟨diskState, hknows, hsame.lookup⟩
    · split at hstep
      · cases hstep
        exact ⟨trivial, .inl rfl, fun _ => .inl rfl, by simp⟩
      · rename_i bytes hbytes
        cases hstep
        exact ⟨⟨hmerged, hbytes⟩, .inl rfl, fun _ => .inl rfl, by simp⟩
  | encoded merged bytes =>
    obtain ⟨hmerged, hbytes⟩ := hknows
    simp only [TaskStage.advance] at hstep
    split at hstep
    · cases hstep
      exact ⟨trivial, .inl rfl, fun _ => .inl rfl, by simp⟩
    · cases hstep
      refine ⟨hmerged, .inr rfl, fun _ => .inl rfl, ?_⟩
      rintro merged' ⟨⟩
      exact written_holds hmerged hbytes
  | done result => cases hstep

/-- Tasks come and go without the lock, and the file stays. -/
theorem Sound.replace (hw : Sound codec w) (old new rest : List (RunningTask β)) (hdisk : w'.disk = w.disk)
    (hinner : ∀ s ∈ w'.stores, Codec.Current s.inner) (hbefore : w.tasks.Perm (old ++ rest))
    (hafter : w'.tasks.Perm (new ++ rest))
    (hnew : ∀ t ∈ new, Codec.Current t.task.candidate ∧ Knows codec w.disk t.stage ∧ t.stage.holdsLock = false) :
    Sound codec w' := by
  have hrest : ∀ t ∈ rest, t ∈ w.tasks := fun t ht => hbefore.mem_iff.mpr (List.mem_append_right _ ht)
  refine ⟨hinner, ?_, ?_, ?_⟩
  · intro t ht
    rcases List.mem_append.mp (hafter.mem_iff.mp ht) with hn | hr
    · exact (hnew t hn).1
    · exact hw.candidate t (hrest t hr)
  · intro t ht
    rw [hdisk]
    rcases List.mem_append.mp (hafter.mem_iff.mp ht) with hn | hr
    · exact (hnew t hn).2.1
    · exact hw.knows t (hrest t hr)
  · have hnone : (new.filter fun t => t.stage.holdsLock) = [] := by
      rw [List.filter_eq_nil_iff]
      intro t ht
      simp [(hnew t ht).2.2]
    have hlength := (hbefore.filter fun t => t.stage.holdsLock).length_eq
    rw [(hafter.filter _).length_eq, List.filter_append, hnone, List.nil_append]
    rw [List.filter_append, List.length_append] at hlength
    have hone := hw.exclusive
    omega

theorem inner_modify {stores : List (Store β)} (hall : ∀ s ∈ stores, Codec.Current s.inner) (h : Nat)
    (f : Store β → Store β) (hf : ∀ s, Codec.Current s.inner → Codec.Current (f s).inner) :
    ∀ s ∈ stores.modify h f, Codec.Current s.inner := by
  intro s hs
  obtain ⟨i, hi⟩ := List.mem_iff_getElem?.mp hs
  rw [List.getElem?_modify] at hi
  obtain ⟨s', hs', rfl⟩ := Option.map_eq_some_iff.mp hi
  have hcurrent := hall s' (List.mem_of_getElem? hs')
  split
  · exact hf s' hcurrent
  · exact hcurrent

/-- A step of a task. -/
theorem Sound.advance (hw : Sound codec w) (hat : w.taskAt owner = some t)
    (hstep : t.stage.advance codec w.disk w.free faults t.task = some (stage, disk)) :
    Sound codec { w.setTask owner { t with stage := stage } with disk := disk } := by
  obtain ⟨rest, hbefore, hset⟩ := tasks_at hat
  have hafter : ({ w.setTask owner { t with stage := stage } with disk := disk } : Shared β).tasks.Perm
      ({ t with stage := stage } :: rest) := hset { t with stage := stage }
  have ht : t ∈ w.tasks := hbefore.mem_iff.mpr List.mem_cons_self
  have hrest : ∀ t' ∈ rest, t' ∈ w.tasks := fun t' ht' => hbefore.mem_iff.mpr (List.mem_cons_of_mem _ ht')
  obtain ⟨hknows, hdisk, hlock, -⟩ := advance_knows (hw.candidate t ht) (hw.knows t ht) hstep
  have hlength := (hbefore.filter fun t => t.stage.holdsLock).length_eq
  have hone := hw.exclusive
  refine ⟨?_, ?_, ?_, ?_⟩
  · cases owner with
    | caller h => exact inner_modify hw.inner h _ fun s hs => hs
    | nobody i => exact hw.inner
  · intro t' ht'
    rcases List.mem_cons.mp (hafter.mem_iff.mp ht') with rfl | hr
    · exact hw.candidate t ht
    · exact hw.candidate t' (hrest t' hr)
  · intro t' ht'
    rcases List.mem_cons.mp (hafter.mem_iff.mp ht') with rfl | hr
    · exact hknows
    · rcases hdisk with hsame | hheld
      · show Knows codec disk t'.stage
        rw [hsame]
        exact hw.knows t' (hrest t' hr)
      · -- The file changes under the lock, which nobody else has.
        refine knows_unlocked (hw.knows t' (hrest t' hr)) ?_
        rw [List.filter_cons_of_pos (p := fun t : RunningTask β => t.stage.holdsLock) hheld, List.length_cons] at hlength
        have hempty : (rest.filter fun t => t.stage.holdsLock) = [] := List.length_eq_zero_iff.mp (by omega)
        simpa using List.filter_eq_nil_iff.mp hempty t' hr
  · rw [(hafter.filter _).length_eq]
    cases hheld : stage.holdsLock with
    | false =>
      rw [List.filter_cons_of_neg (by simp [hheld])]
      have hle : (rest.filter fun t => t.stage.holdsLock).length ≤
          ((t :: rest).filter fun t => t.stage.holdsLock).length :=
        ((List.sublist_cons_self t rest).filter _).length_le
      omega
    | true =>
      rw [List.filter_cons_of_pos (p := fun t : RunningTask β => t.stage.holdsLock) hheld, List.length_cons]
      rcases hlock hheld with hbefore' | hfree
      · rw [List.filter_cons_of_pos (p := fun t : RunningTask β => t.stage.holdsLock) hbefore', List.length_cons] at hlength
        omega
      · have hempty : (rest.filter fun t => t.stage.holdsLock) = [] := by
          rw [List.filter_eq_nil_iff]
          intro t' ht'
          simpa using List.all_eq_true.mp hfree t' (hrest t' ht')
        rw [hempty]
        exact le_refl _

theorem step_sound (w : Shared β) (event : SharedEvent) (w' : Shared β) (hw : Sound codec w)
    (hstep : step codec w event = some w') : Sound codec w' := by
  have hkeeps (h : Nat) (call : Option (RunningTask β)) : ∀ s ∈ (w.setCall h call).stores, Codec.Current s.inner :=
    inner_modify hw.inner h _ fun s hs => hs
  cases event with
  | «open» faults =>
    simp only [step] at hstep
    split at hstep
    · cases hstep
      exact hw
    · rename_i initial hload
      cases hstep
      refine hw.replace [] [] w.tasks rfl ?_ (List.Perm.refl _) ?_ (by simp)
      · intro s hs
        rcases List.mem_append.mp hs with hold | hnew
        · exact hw.inner s hold
        · cases List.mem_singleton.mp hnew
          exact load_current hload
      · simp [tasks]
  | start h write =>
    obtain ⟨s, hs, hstep⟩ := Option.bind_eq_some_iff.mp hstep
    split at hstep
    · rename_i hnone
      cases hstep
      obtain ⟨rest, hbefore, hafter⟩ := tasks_modify hs
      rw [hnone] at hbefore
      refine hw.replace _ _ _ rfl (hkeeps h _) hbefore (hafter fun s' => { s' with call := _ }) ?_
      intro t ht
      cases List.mem_singleton.mp ht
      exact ⟨current_prepare (hw.inner s (List.mem_of_getElem? hs)) write, trivial, rfl⟩
    · cases hstep
  | advance owner faults =>
    obtain ⟨t, hat, hstep⟩ := Option.bind_eq_some_iff.mp hstep
    obtain ⟨⟨stage, disk⟩, hadvance, rfl⟩ := Option.map_eq_some_iff.mp hstep
    exact hw.advance hat hadvance
  | finish h =>
    obtain ⟨t, hcall, hstep⟩ := Option.bind_eq_some_iff.mp hstep
    obtain ⟨s, hs, hst⟩ := stores_of_call hcall
    obtain ⟨rest, hbefore, hafter⟩ := tasks_modify hs
    rw [hst] at hbefore
    split at hstep
    · rename_i merged hdone
      cases hstep
      have hmerged : Codec.Current merged := by
        have hknows := hw.knows t (hbefore.mem_iff.mpr (List.mem_append_left _ List.mem_cons_self))
        rw [hdone] at hknows
        exact hknows
      refine hw.replace _ [] _ rfl ?_ hbefore (hafter fun _ => ⟨merged, none⟩) (by simp)
      exact inner_modify hw.inner h _ fun s _ => hmerged
    · cases hstep
      exact hw.replace _ [] _ rfl (hkeeps h none) hbefore (hafter fun s' => { s' with call := none }) (by simp)
    · cases hstep
  | drop h =>
    obtain ⟨t, hcall, rfl⟩ := Option.map_eq_some_iff.mp hstep
    obtain ⟨s, hs, hst⟩ := stores_of_call hcall
    obtain ⟨rest, hbefore, hafter⟩ := tasks_modify hs
    rw [hst] at hbefore
    refine hw.replace [] [] w.tasks rfl (hkeeps h none) (List.Perm.refl _) ?_ (by simp)
    have hdetached : ({ w.setCall h none with detached := w.detached ++ [t] } : Shared β).tasks =
        (w.hide h).tasks ++ [t] := (List.append_assoc _ _ _).symm
    rw [hdetached]
    refine (List.perm_append_singleton t _).trans (List.Perm.trans ?_ hbefore.symm)
    exact (hafter fun s' => { s' with call := none }).cons t
  | kill i =>
    obtain ⟨t, hi, rfl⟩ := Option.map_eq_some_iff.mp hstep
    obtain ⟨rest, hbefore, -, hafter⟩ := tasks_detached hi
    exact hw.replace [t] [] _ rfl hw.inner hbefore hafter (by simp)

theorem run_sound {disk : Option β} (hrun : Lib.Machine.run (step codec) (init disk) events = some w) :
    Sound codec w :=
  Lib.Machine.run_invariant step_sound hrun (init_sound codec disk)

end Invariant

section Returns

variable {w w' w₁ w₂ : Shared β} {h : Nat} {t : RunningTask β} {during : List SharedEvent} {merged : Checkpoints}

/-- The step a call's task ends well with. -/
theorem run_ends (hw : Sound codec w) (hcall : w.callOf h = some t) (hopen : ∀ merged, t.stage ≠ .done (.ok merged))
    (hends : ∀ event ∈ during, ends h event = false) (hrun : Lib.Machine.run (step codec) w during = some w')
    (hend : w'.callOf h = some t') (hdone : t'.stage = .done (.ok merged)) :
    ∃ before faults after mid mid', during = before ++ .advance (.caller h) faults :: after ∧
      Lib.Machine.run (step codec) w before = some mid ∧
      step codec mid (.advance (.caller h) faults) = some mid' ∧
      Lib.Machine.run (step codec) mid' after = some w' ∧ Holds codec mid'.disk merged := by
  induction during generalizing w t with
  | nil =>
    cases hrun
    cases hcall.symm.trans hend
    exact absurd hdone (hopen merged)
  | cons event during ih =>
    obtain ⟨mid, hstep, hrest⟩ := Lib.Machine.run_cons hrun
    have hends' : ∀ event ∈ during, ends h event = false := fun event he => hends event (List.mem_cons_of_mem _ he)
    have hmid := step_sound w event mid hw hstep
    have hcons (hlater : ∃ before faults after mid₁ mid', during = before ++ .advance (.caller h) faults :: after ∧
        Lib.Machine.run (step codec) mid before = some mid₁ ∧
        step codec mid₁ (.advance (.caller h) faults) = some mid' ∧
        Lib.Machine.run (step codec) mid' after = some w' ∧ Holds codec mid'.disk merged) :
        ∃ before faults after mid₁ mid', event :: during = before ++ .advance (.caller h) faults :: after ∧
          Lib.Machine.run (step codec) w before = some mid₁ ∧
          step codec mid₁ (.advance (.caller h) faults) = some mid' ∧
          Lib.Machine.run (step codec) mid' after = some w' ∧ Holds codec mid'.disk merged := by
      obtain ⟨before, faults, after, mid₁, mid', rfl, hbefore, hlast⟩ := hlater
      refine ⟨event :: before, faults, after, mid₁, mid', rfl, ?_, hlast⟩
      rw [Lib.Machine.run, hstep]
      exact hbefore
    cases habout : about h event with
    | false =>
      have hstays := (step_other hcall habout (hends event List.mem_cons_self) hstep).1
      exact hcons (ih hmid hstays hopen hends' hrest)
    | true =>
      obtain ⟨faults, stage, disk, rfl, hadvance, rfl, hnext⟩ := step_about hcall habout hstep
      by_cases hover : ∃ merged', stage = .done (.ok merged')
      · obtain ⟨merged', rfl⟩ := hover
        have hsame := (run_done hnext rfl hends' hrest).symm.trans hend
        cases hsame
        cases hdone
        obtain ⟨rest, htasks, -⟩ := tasks_at (show w.taskAt (.caller h) = some t from hcall)
        have ht : t ∈ w.tasks := htasks.mem_iff.mpr List.mem_cons_self
        obtain ⟨-, -, -, hholds⟩ := advance_knows (hw.candidate t ht) (hw.knows t ht) hadvance
        exact ⟨[], faults, during, w, _, rfl, rfl, hstep, hrest, hholds merged rfl⟩
      · exact hcons (ih hmid hnext (fun merged' heq => hover ⟨merged', heq⟩) hends' hrest)

/-- A call that returns `Ok` leaves the store with what the file held when its task let the lock go. -/
theorem succeeded_call {write : CurrentWrite} (hw : Sound codec w) (hstart : step codec w (.start h write) = some w₁)
    (hrun : Lib.Machine.run (step codec) w₁ during = some w₂) (hends : ∀ event ∈ during, ends h event = false)
    (hreturned : w₂.returned h = some (.ok ())) (hfinish : step codec w₂ (.finish h) = some w') :
    ∃ merged before faults after mid mid', w'.innerOf h = some merged ∧
      during = before ++ .advance (.caller h) faults :: after ∧
      Lib.Machine.run (step codec) w₁ before = some mid ∧
      step codec mid (.advance (.caller h) faults) = some mid' ∧
      Lib.Machine.run (step codec) mid' after = some w₂ ∧ Holds codec mid'.disk merged := by
  obtain ⟨inner, -, -, hcall, -⟩ := start_call hstart
  obtain ⟨t, ht, hresult⟩ := Option.bind_eq_some_iff.mp hreturned
  have hstage : ∃ merged, t.stage = .done (.ok merged) := by
    split at hresult
    · rename_i result hdone
      cases result with
      | ok merged => exact ⟨merged, hdone⟩
      | error e' => cases hresult
    · cases hresult
  obtain ⟨merged, hdone⟩ := hstage
  obtain ⟨s, hs, -⟩ := stores_of_call ht
  have hend : w' = w₂.install h merged := by
    simp only [step, ht, Option.bind_some, hdone] at hfinish
    exact (Option.some.inj hfinish).symm
  subst hend
  obtain ⟨before, faults, after, mid, mid', hsplit, hlast⟩ :=
    run_ends (step_sound w _ w₁ hw hstart) hcall (by simp) hends hrun ht hdone
  refine ⟨merged, before, faults, after, mid, mid', ?_, hsplit, hlast⟩
  simp [innerOf, install, hs]

end Returns

section Alone

/-- A task that nothing disturbs, some steps on. -/
def drive (codec : Codec β) (faults : Faults) (task : Task) : Nat → TaskStage β × Option β → TaskStage β × Option β
  | 0, state => state
  | n + 1, state => drive codec faults task n ((state.1.advance codec state.2 true faults task).getD state)

/-- What `write_through` makes of the result of its task. -/
def settle (inner : Checkpoints) : TaskStage β × Option β → Option (Except StoreError Unit × JsonFileStore β)
  | (.done (.ok merged), disk) => some (.ok (), ⟨disk, merged⟩)
  | (.done (.error e), disk) => some (.error e, ⟨disk, inner⟩)
  | _ => none

/-- The steps of a call that runs alone are those of `write_through`. -/
theorem drive_writeThrough (codec : Codec β) (faults : Faults) (s : JsonFileStore β) (write : Write) :
    settle s.inner (drive codec faults (prepare s.inner write) 5 (.spawned, s.disk)) =
      some (s.writeThrough codec faults write) := by
  simp only [JsonFileStore.writeThrough]
  cases hlockFile : faults.lockFile with
  | some e => simp [drive, TaskStage.advance, hlockFile, settle]
  | none =>
    cases hlock : faults.lock with
    | some e => simp [drive, TaskStage.advance, hlockFile, hlock, settle]
    | none =>
      cases hload : codec.loadFromDisk faults s.disk with
      | error e => simp [drive, TaskStage.advance, hlockFile, hlock, hload, settle]
      | ok diskState =>
        simp only [JsonFileStore.install]
        generalize hmerged : mergeMonotonic (prepare s.inner write).candidate diskState (prepare s.inner write).deletes =
          merged
        by_cases hsame : merged.Same diskState
        · simp [drive, TaskStage.advance, hlockFile, hlock, hload, hmerged, hsame, settle]
        · cases hbytes : codec.toVec (codec.fileOf merged) with
          | error e => simp [drive, TaskStage.advance, hlockFile, hlock, hload, hmerged, hsame, hbytes, settle]
          | ok bytes =>
            cases hwrite : faults.write with
            | some e =>
              simp [drive, TaskStage.advance, hlockFile, hlock, hload, hmerged, hsame, hbytes, hwrite, settle]
            | none =>
              simp [drive, TaskStage.advance, hlockFile, hlock, hload, hmerged, hsame, hbytes, hwrite, settle]

end Alone

section Law

variable {w₀ w₁ w₂ w₃ : Shared β} {h : Nat} {opening during : List SharedEvent} {write : CurrentWrite}

theorem get_innerOf (w : Shared β) (h : Nat) (key : ResumeKey) :
    w.get h key = (w.innerOf h).bind fun inner => inner.lookup key := by
  rw [get, innerOf]
  cases w.stores[h]? <;> rfl

/-- A put or delete that fails at any stage leaves no trace, and one that returns `Ok` leaves the
store with what the file held when its task let the lock go. -/
theorem failure_atomic (codec : Codec β) (disk : Option β)
    (hopening : Lib.Machine.run (step codec) (init disk) opening = some w₀)
    (hstart : step codec w₀ (.start h write) = some w₁)
    (hrun : Lib.Machine.run (step codec) w₁ during = some w₂)
    (hends : ∀ event ∈ during, ends h event = false) (hfinish : step codec w₂ (.finish h) = some w₃) :
    (∀ e, w₂.returned h = some (.error e) →
      Lib.Machine.run (step codec) w₀ (during.filter fun event => !about h event) = some w₃ ∧
      (∀ key, w₃.get h key = w₀.get h key) ∧ Quiet codec h w₁ during) ∧
    (w₂.returned h = some (.ok ()) →
      ∃ merged before faults after mid mid', (∀ key, w₃.get h key = merged.lookup key) ∧
        during = before ++ .advance (.caller h) faults :: after ∧
        Lib.Machine.run (step codec) w₁ before = some mid ∧
        step codec mid (.advance (.caller h) faults) = some mid' ∧
        Lib.Machine.run (step codec) mid' after = some w₂ ∧ Holds codec mid'.disk merged) := by
  constructor
  · intro e hreturned
    obtain ⟨hwithout, hinner, hquiet⟩ := failed_call hstart hrun hends hreturned hfinish
    refine ⟨hwithout, ?_, hquiet⟩
    intro key
    rw [get_innerOf, get_innerOf, hinner]
  · intro hreturned
    obtain ⟨merged, before, faults, after, mid, mid', hinner, hlast⟩ :=
      succeeded_call (run_sound hopening) hstart hrun hends hreturned hfinish
    refine ⟨merged, before, faults, after, mid, mid', ?_, hlast⟩
    intro key
    rw [get_innerOf, hinner, Option.bind_some]

def samplePut (sequence : Nat) : CurrentWrite := ⟨.put sampleKey ⟨sequence, none⟩, rfl⟩

/-- A put that cannot open the lock file. -/
theorem failure_atomic_lock_file :
    ∃ w₀ w₁ w₂ w₃ : Shared (List UInt8),
      Lib.Machine.run (step sampleCodec) (init none) [.open .none] = some w₀ ∧
      step sampleCodec w₀ (.start 0 (samplePut 5)) = some w₁ ∧
      Lib.Machine.run (step sampleCodec) w₁
        [.advance (.caller 0) { Faults.none with lockFile := some "permission denied" }] = some w₂ ∧
      step sampleCodec w₂ (.finish 0) = some w₃ ∧
      w₂.returned 0 = some (.error (.io "permission denied")) ∧ w₃ = w₀ := by
  refine ⟨_, _, _, _, rfl, rfl, rfl, rfl, rfl, ?_⟩
  have hlaw := failure_atomic sampleCodec none
    (show Lib.Machine.run (step sampleCodec) (init none) [.open .none] = some _ from rfl)
    (show step sampleCodec _ (.start 0 (samplePut 5)) = some _ from rfl)
    (show Lib.Machine.run (step sampleCodec) _
      [.advance (.caller 0) { Faults.none with lockFile := some "permission denied" }] = some _ from rfl)
    (by simp [ends]) (show step sampleCodec _ (.finish 0) = some _ from rfl)
  exact (Option.some.inj (hlaw.1 _ rfl).1).symm

/-- The steps of one call without faults. -/
def sampleSteps (h : Nat) : List SharedEvent := List.replicate 5 (.advance (.caller h) .none)

/-- Two stores put the same key; the first returns after the second has written. -/
theorem failure_atomic_stale : ¬ ∀ (codec : Codec (List UInt8)) (disk : Option (List UInt8))
    (opening during : List SharedEvent) (h : Nat) (write : CurrentWrite) (w₀ w₁ w₂ w₃ : Shared (List UInt8)),
    Lib.Machine.run (step codec) (init disk) opening = some w₀ → step codec w₀ (.start h write) = some w₁ →
    Lib.Machine.run (step codec) w₁ during = some w₂ → (∀ event ∈ during, ends h event = false) →
    step codec w₂ (.finish h) = some w₃ → w₂.returned h = some (.ok ()) →
    ∃ snapshot, (∀ key, w₃.get h key = snapshot.lookup key) ∧ Holds codec w₃.disk snapshot := by
  intro hclaim
  let opening : List SharedEvent := [.open .none, .open .none]
  let during : List SharedEvent := sampleSteps 0 ++ .start 1 (samplePut 5) :: sampleSteps 1
  have hreturned : (Lib.Machine.run (step sampleCodec) (init none)
      (opening ++ .start 0 (samplePut 2) :: during)).map (fun w => w.returned 0) = some (some (.ok ())) := by
    decide +kernel
  let held (m : Checkpoints) : Option Checkpoint := m.lookup sampleKey.1
  have hread : (Lib.Machine.run (step sampleCodec) (init none)
      (opening ++ .start 0 (samplePut 2) :: (during ++ [.finish 0]))).map
        (fun w => (w.get 0 sampleKey, (sampleCodec.loadFromDisk .none w.disk).map held)) =
      some (some ⟨2, none⟩, .ok (some ⟨5, none⟩)) := by
    decide +kernel
  obtain ⟨w₃, hrun, hvalues⟩ := Option.map_eq_some_iff.mp hread
  obtain ⟨w₀, hopening, hrest⟩ := Lib.Machine.run_append hrun
  obtain ⟨w₁, hstart, hrest⟩ := Lib.Machine.run_cons hrest
  obtain ⟨w₂, hduring, hlast⟩ := Lib.Machine.run_append hrest
  obtain ⟨w₃', hfinish, hend⟩ := Lib.Machine.run_cons hlast
  cases hend
  have hok : w₂.returned 0 = some (.ok ()) := by
    rw [Lib.Machine.run_append_bind, hopening, Option.bind_some, Lib.Machine.run, hstart, Option.bind_some,
      hduring] at hreturned
    exact Option.some.inj hreturned
  obtain ⟨snapshot, hsnapshot, read, hload, hholds⟩ :=
    hclaim sampleCodec none opening during 0 (samplePut 2) w₀ w₁ w₂ w₃ hopening hstart hduring (by decide) hfinish hok
  obtain ⟨hget, hfile⟩ := Prod.mk.inj hvalues
  rw [hload] at hfile
  have hfive : held read = some ⟨5, none⟩ := Except.ok.inj hfile
  rw [hsnapshot, hholds] at hget
  exact absurd (hfive.symm.trans hget) (by decide)

end Law

end Aviso.State.Shared
