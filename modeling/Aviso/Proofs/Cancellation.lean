import Aviso.Proofs.LastItem

namespace Aviso.Watch

open Lib (Machine)

def landing : Effect → Option State.Checkpoint
  | .landed cp => some cp
  | _ => none

def returned : Effect → Option (State.Checkpoint × Bool)
  | .put cp ok => some (cp, ok)
  | _ => none

namespace Control

variable {c : Setup} {σ σ' : State} {base : List Effect}

/-- How far the exit flush can have got in a phase. -/
def Phase.Within : Phase → List Effect → Prop
  | .leaving, tail | .flushing false, tail =>
    tail.filterMap landing = [] ∧ tail.filterMap returned = []
  | .flushing true, tail => (tail.filterMap landing).length ≤ 1 ∧ tail.filterMap returned = []
  | .done, tail => (tail.filterMap landing).length ≤ 1 ∧ (tail.filterMap returned).length ≤ 1
  | _, _ => False

/-- The run was over at `base`, and at most flushed since. -/
structure Parted (base : List Effect) (σ : State) : Prop where
  gated : Gated σ
  exits : σ.phase.exits = true
  tail : ∃ tail, σ.trace = base ++ tail ∧ (∀ e ∈ tail, Parting e) ∧ σ.phase.Within tail

theorem Phase.Within.start (h : phase.exits = true) : Phase.Within phase [] := by
  cases phase with
  | flushing landed => cases landed <;> simp [Phase.Within]
  | leaving => simp [Phase.Within]
  | done => simp [Phase.Within]
  | _ => cases h

theorem Phase.Within.once (h : Phase.Within phase tail) :
    (tail.filterMap landing).length ≤ 1 ∧ (tail.filterMap returned).length ≤ 1 := by
  cases phase with
  | flushing landed =>
    cases landed with
    | false => simp [h.1, h.2]
    | true => simp [h.1, h.2]
  | leaving => simp [h.1, h.2]
  | done => exact h
  | _ => cases h

theorem Parted.step (h : Parted base σ) (hs : Step c σ σ') : Parted base σ' := by
  obtain ⟨hgated, hexits, tail, htrace, hparting, hwithin⟩ := h
  have hdeparts := hs.departs hgated hexits
  have hsnoc (e : Effect) (he : Parting e) : ∀ e' ∈ tail ++ [e], Parting e' := by
    intro e' hmem
    rcases List.mem_append.mp hmem with hmem | hmem
    · exact hparting e' hmem
    · exact List.mem_singleton.mp hmem ▸ he
  refine ⟨hgated.step hs, hdeparts.exits, ?_⟩
  cases hdeparts with
  | part short shortSessions hp =>
    rw [hp] at hwithin
    refine ⟨tail ++ [.ended .cancelled short], by simp [htrace], hsnoc _ (by trivial), ?_⟩
    simpa [hp, Phase.Within, landing, returned, List.filterMap_cons] using hwithin
  | flush hp =>
    rw [hp] at hwithin
    exact ⟨tail, htrace, hparting, hwithin⟩
  | quit hp =>
    rw [hp] at hwithin
    refine ⟨tail, htrace, hparting, ?_⟩
    simp [Phase.Within, hwithin.1, hwithin.2]
  | land cp hp =>
    rw [hp] at hwithin
    refine ⟨tail ++ [.landed cp], by simp [htrace], hsnoc _ (by trivial), ?_⟩
    simp [Phase.Within, hwithin.1, hwithin.2, landing, returned, List.filterMap_cons]
  | @flushed landed cp ok hp =>
    rw [hp] at hwithin
    refine ⟨tail ++ [.put cp ok], by simp [htrace], hsnoc _ (by trivial), ?_⟩
    cases landed with
    | false => simp [Phase.Within, hwithin.1, hwithin.2, landing, returned, List.filterMap_cons]
    | true => simpa [Phase.Within, hwithin.2, landing, returned, List.filterMap_cons] using hwithin.1

end Control

/-- A run that is over polls the receiver no more. -/
theorem Stage.polls_exits {stage : Stage} (h : stage.control.exits = true) : stage.polls = false := by
  cases stage with
  | reading conn =>
    rcases System.readingPhase_cases conn with hp | hp
    · exact absurd ((congrArg Control.Phase.exits hp).symm.trans h) nofun
    · exact absurd ((congrArg Control.Phase.exits hp).symm.trans h) nofun
  | top => rfl
  | draining conn chunk => rfl
  | putting conn chunk n landed => rfl
  | attempting conn chunk n i attempt => rfl
  | ended outcome => rfl
  | flushing landed => rfl
  | startupExpired => rfl
  | done => rfl
  | _ => cases h

namespace System

variable {c : Setup} {s s' : System}

theorem exits_leave : (s.leave c).stage.control.exits = true := by
  unfold leave
  split <;> rfl

theorem trace_leave : (s.leave c).trace = s.trace := by
  unfold leave
  split <;> rfl

/-- Where the run goes when an await observes a cancellation. -/
def Departed (s s' : System) : Prop := s'.stage.control.exits = true ∧ s'.trace = s.trace

theorem departed_leave : s.Departed (s.leave c) := ⟨exits_leave, trace_leave⟩

theorem departed_close : s.Departed (s.close .cancelled) := ⟨rfl, rfl⟩

theorem departed_after (next : After) : s.Departed (s.after c next) := by
  cases next with
  | «return» => exact ⟨rfl, rfl⟩
  | «break» => exact departed_leave
  | stopRequested => exact departed_close

theorem stage_cancelled (h : s.stepStage c .cancelled = some s') : s.Departed s' := by
  unfold stepStage at h
  split at h
  · dsimp only [stepResolving] at h
    split at h
    · cases h
      exact ⟨rfl, rfl⟩
    · cases h
  · cases h
  · cases h
    exact departed_leave
  · cases h
    exact departed_leave
  · cases h
    exact departed_close
  · cases h
    exact departed_close
  · cases h
    exact departed_close
  · cases h
    exact departed_close
  · cases h
  · obtain ⟨prev, -, h⟩ := Option.bind_eq_some_iff.mp h
    cases h
  · cases h
  · cases h
  · cases h
    exact departed_close
  · cases h
    exact departed_close
  · cases h
  · cases h
    exact departed_after _
  · obtain ⟨pending, -, h⟩ := Option.bind_eq_some_iff.mp h
    cases h
  · cases h
  · cases h

theorem stage_probed (h : s.stepStage c (.probe true) = some s') : s.Departed s' := by
  unfold stepStage at h
  split at h
  all_goals try cases h
  · obtain ⟨prev, -, h⟩ := Option.bind_eq_some_iff.mp h
    cases h
  · exact departed_close
  · obtain ⟨pending, -, h⟩ := Option.bind_eq_some_iff.mp h
    cases h

/-- An await that observes a cancellation ends the run, and does nothing else. -/
theorem step_observes (h : step c s input = some s') (hobs : input.Observes) : s.Departed s' := by
  cases input with
  | cancelled => exact stage_cancelled h
  | probe fired =>
    cases fired with
    | true => exact stage_probed h
    | false => cases hobs
  | _ => cases hobs

theorem run_gated {held : Option State.Checkpoint} {inputs : List Input}
    (h : Machine.run (step c) (start held) inputs = some s) :
    s.stage.Tidy ∧ ∀ seen, Control.Gated (s.control seen) := by
  have htidy : s.stage.Tidy :=
    Machine.run_invariant (P := fun s => s.stage.Tidy) (fun _ _ _ => step_tidy) h trivial
  have hsteps := run_control [] h trivial
  have hgated := Lib.star_invariant (P := Control.Gated) (fun _ _ hσ => hσ.step) hsteps .initial
  exact ⟨htidy, fun _ => ⟨hgated.streaming, hgated.pending, hgated.flushing⟩⟩

/-- Once an await observed a cancellation, no stage polls the receiver again, and the
run does nothing but close its last connection and flush its cursor once. -/
theorem cancellation_final (c : Setup) (held : Option State.Checkpoint) (before after : List Input)
    (input : Input) (s s' s'' : System)
    (hbefore : Machine.run (step c) (start held) before = some s)
    (hstep : step c s input = some s') (hobs : input.Observes)
    (hafter : Machine.run (step c) s' after = some s'') :
    Machine.Throughout (step c) (fun s => s.stage.polls = false) s' after ∧
      ∃ tail, s''.trace = s.trace ++ tail ∧ (∀ e ∈ tail, Control.Parting e) ∧
        (tail.filterMap landing).length ≤ 1 ∧ (tail.filterMap returned).length ≤ 1 := by
  obtain ⟨htidy, hgated⟩ := run_gated (Machine.run_snoc hbefore hstep)
  obtain ⟨hexits, htrace⟩ := step_observes hstep hobs
  have hparted : Control.Parted s.trace (s'.control []) :=
    ⟨hgated [], hexits, [], by simp [control, htrace], nofun, .start hexits⟩
  have hkeeps : ∀ σ σ' : Control.State, Control.Parted s.trace σ → Control.Step c σ σ' →
      Control.Parted s.trace σ' := fun _ _ hσ => hσ.step
  constructor
  · refine Machine.throughout_invariant
      (I := fun s' => s'.stage.Tidy ∧ ∃ seen, Control.Parted s.trace (s'.control seen)) ?_ ?_
      ⟨htidy, [], hparted⟩ after
    · rintro s₁ e s₂ ⟨htidy, seen, hparted⟩ he
      exact ⟨step_tidy htidy he, _, Lib.star_invariant hkeeps (step_control htidy he) hparted⟩
    · rintro s₁ ⟨-, seen, hparted⟩
      exact Stage.polls_exits hparted.exits
  · have hsteps := run_control [] hafter htidy
    obtain ⟨-, -, tail, htail, hparting, hwithin⟩ := Lib.star_invariant hkeeps hsteps hparted
    exact ⟨tail, htail, hparting, hwithin.once⟩

/-- The probe before the trigger of the second notification finds the stream cancelled. -/
theorem cancellation_final_probe : ∃ s s' s'',
    Machine.run (step sampleSetup) (start none) (sampleInputs.take 11) = some s ∧
      step sampleSetup s (.probe true) = some s' ∧
      Machine.run (step sampleSetup) s' [.elapsed false, .lands, .stored] = some s'' ∧
      Machine.Throughout (step sampleSetup) (fun s => s.stage.polls = false) s'
        [.elapsed false, .lands, .stored] := by
  have hrun : (Machine.run (step sampleSetup) (start none)
      (sampleInputs.take 11 ++ .probe true :: [.elapsed false, .lands, .stored])).isSome = true := by
    decide +kernel
  obtain ⟨s'', hs''⟩ := Option.isSome_iff_exists.mp hrun
  obtain ⟨s, hbefore, hrest⟩ := Machine.run_append hs''
  obtain ⟨s', hstep, hafter⟩ := Machine.run_cons hrest
  exact ⟨s, s', s'', hbefore, hstep, hafter,
    (cancellation_final sampleSetup none _ _ _ s s' s'' hbefore hstep trivial hafter).1⟩

end System
end Aviso.Watch
