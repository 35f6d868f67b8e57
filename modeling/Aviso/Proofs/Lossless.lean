import Aviso.Proofs.Contiguity

namespace Aviso.Watch

open Lib (Machine Always)
open State (Checkpoint)

namespace Delivery

/-- A watch that is leaving delivers nothing more. -/
theorem leaving_final {c : Config} {σ σ' : State} (hs : Steps c σ σ') (hp : σ.phase = .leaving) :
    σ'.phase = .leaving ∧ ∃ es, σ'.trace = σ.trace ++ es ∧ ∀ e ∈ es, ¬ e.Active := by
  induction hs with
  | refl => exact ⟨hp, [], by simp, by simp⟩
  | tail _ hlast ih =>
    obtain ⟨hphase, es, htrace, hes⟩ := ih
    have hsnoc : ∀ e : Effect, ¬ e.Active → ∀ e' ∈ es ++ [e], ¬ e'.Active := by
      intro e he e' hmem
      rcases List.mem_append.mp hmem with hmem | hmem
      · exact hes e' hmem
      · exact List.mem_singleton.mp hmem ▸ he
    cases hlast with
    | quiet e he => exact ⟨hphase, es ++ [e], by simp [State.emit, htrace], hsnoc e he.inert.1⟩
    | leave => exact ⟨rfl, es, htrace, hes⟩
    | flush p => exact ⟨hphase, es ++ [.landed p.checkpoint], by simp [State.emit, htrace], hsnoc _ id⟩
    | flushed p ok =>
      exact ⟨hphase, es ++ [.put p.checkpoint ok], by simp [State.emit, htrace], hsnoc _ id⟩
    | resolve _ hp | ask _ hp | request hp | lose hp | refuse _ hp | hold _ _ hp | take _ hp
    | land _ hp | stored _ hp | rejected _ hp | retry _ hp | pass _ hp | complete hp | send hp =>
      cases hphase.symm.trans hp

end Delivery

theorem GapGuard.observe_error {g : GapGuard} (h : g.observe n = .error reason) :
    ∃ expected, reason = .sequenceJump expected n ∧ expected < n := by
  unfold observe at h
  split at h
  · cases h
  · split at h
    · cases h
    · split at h
      · split at h
        · cases h
        · cases h
          exact ⟨_, rfl, ‹_›⟩
      · cases h

namespace System

theorem relaxed_of_filter {c : Setup} (hf : c.request.filter = []) : c.relaxed = false := by
  simp [Setup.relaxed, hf]

variable {c : Setup} {held : Option Checkpoint} {inputs : List Input} {s : System}

/-- Every state of every run of an unfiltered watch is without gaps. -/
theorem run_contiguous (hf : c.request.filter = [])
    (h : Machine.run (step c) (start held) inputs = some s) :
    Delivery.Contiguous (s.delivery c) := by
  have hsteps := Machine.run_refines (delivery c) (fun _ _ _ => step_steps) h
  have hboth : Delivery.Sound c.delivery held (s.delivery c) ∧ Delivery.Contiguous (s.delivery c) := by
    refine Lib.star_invariant (P := fun σ => Delivery.Sound c.delivery held σ ∧
      Delivery.Contiguous σ) ?_ hsteps ⟨.initial, .initial⟩
    intro σ σ' hσ hstep
    exact ⟨hσ.1.step hstep, hσ.2.step hσ.1.cursors (relaxed_of_filter hf) hstep⟩
  exact hboth.2

/-- Once a watch is leaving, no continuation of the run delivers anything. -/
def Over (c : Setup) (s : System) : Prop :=
  ∀ inputs s', Machine.run (step c) s inputs = some s' →
    ∃ es, s'.trace = s.trace ++ es ∧ ∀ e ∈ es, ¬ e.Active

theorem over_of_leaving (h : s.stage.phase c = .leaving) : Over c s := by
  intro inputs s' hrun
  have hsteps := Machine.run_refines (delivery c) (fun _ _ _ => step_steps) hrun
  exact (Delivery.leaving_final hsteps h).2

/-- A watch about to take a notification with a gap before it reports the gap. -/
theorem draining_gap (hcont : Delivery.Contiguous (s.delivery c))
    (hcur : Delivery.Cursors c.delivery (s.delivery c)) (hstage : s.stage = .draining conn chunk)
    (hframe : conn.parser.nextFrame = (some (.message m), parser))
    (hn : c.serde.incoming c.request.eventType m = .notification n)
    (hgap : ¬ Reached s.floor s.trace n.sequence) :
    ∃ s' expected, step c s .proceed = some s' ∧
      s'.stage = .reporting (.historyGap (.sequenceJump expected n.sequence)) .stopRequested ∧
      s'.trace = s.trace ++ [.received n] := by
  have hguard : GuardFor conn.gapGuard (lastDelivered s.vars.pendingCommit s.vars.commitCursor) := by
    have hg := hcont.guarded
    simpa [Delivery.Guarded, delivery, hstage, Stage.phase] using hg
  have hstep : step c s .proceed = some (s.receiveNotification c { conn with parser := parser } chunk n) := by
    simp only [step, stepStage, hstage, stepDraining, hframe, receiveMessage, hn]
  cases hobs : conn.gapGuard.observe n.sequence with
  | ok gapGuard =>
    have hle := (hguard.observe (Serde.incoming_le hn) hobs).2
    exact absurd (hcont.reached hcur hle) hgap
  | error reason =>
    obtain ⟨expected, rfl, -⟩ := GapGuard.observe_error hobs
    refine ⟨_, expected, hstep, ?_, ?_⟩
    · simp [receiveNotification, hobs, goto]
    · simp [receiveNotification, hobs, goto, emit, apply, setVars]

/-- In every run of an unfiltered watch, a notification is dispatched or sent only
when all those before it, down to the start of the watch, were sent; one that
comes after a gap ends the watch with an error instead. -/
theorem lossless_delivery (c : Setup) (held : Option Checkpoint) (inputs : List Input) (s : System)
    (hf : c.request.filter = []) (h : Machine.run (step c) (start held) inputs = some s) :
    Always (NoGap s.floor) s.trace ∧
      ∀ conn chunk m n parser, s.stage = .draining conn chunk →
        conn.parser.nextFrame = (some (.message m), parser) →
        c.serde.incoming c.request.eventType m = .notification n →
        ¬ Reached s.floor s.trace n.sequence →
        ∃ s' expected, step c s .proceed = some s' ∧
          s'.stage = .reporting (.historyGap (.sequenceJump expected n.sequence)) .stopRequested ∧
          s'.trace = s.trace ++ [.received n] ∧ Over c s' := by
  have hcont := run_contiguous hf h
  refine ⟨hcont.law, ?_⟩
  intro conn chunk m n parser hstage hframe hn hgap
  obtain ⟨s', expected, hstep, hreporting, htrace⟩ :=
    draining_gap hcont (run_sound h).cursors hstage hframe hn hgap
  exact ⟨s', expected, hstep, hreporting, htrace, over_of_leaving (by rw [hreporting]; rfl)⟩

theorem lossless_delivery_two_sent : ∃ s,
    Machine.run (step sampleSetup) (start none) sampleInputs = some s ∧ sentOf s.trace = [1, 2] ∧
      Always (NoGap none) s.trace := by
  obtain ⟨s, hs, hsent, -, hfloor⟩ := sample_run
  have hlaw := (lossless_delivery sampleSetup none sampleInputs s rfl hs).1
  exact ⟨s, hs, hsent, hfloor ▸ hlaw⟩

end System
end Aviso.Watch
