import Aviso.Proofs.ControlSteps

namespace Aviso.Watch

namespace Control

/-- The effects of a run that is over: the end of the last connection and the exit flush. -/
def Parting : Effect → Prop
  | .ended .cancelled _ | .landed _ | .put _ _ => True
  | _ => False

/-- The steps of a run that is over. -/
inductive Departs : State → State → Prop where
  | part (short : Bool) (shortSessions : Nat) : σ.phase = .leaving →
      Departs σ ((σ.emit (.ended .cancelled short)).set { σ.vars with shortSessions := shortSessions })
  | flush : σ.phase = .leaving → Departs σ (σ.enter (.flushing false))
  | quit : σ.phase = .leaving → Departs σ (σ.enter .done)
  | land (cp : State.Checkpoint) : σ.phase = .flushing false →
      Departs σ ((σ.emit (.landed cp)).enter (.flushing true))
  | flushed (cp : State.Checkpoint) (ok : Bool) : σ.phase = .flushing landed →
      Departs σ ((σ.emit (.put cp ok)).enter .done)

variable {c : Setup} {σ σ' : State}

/-- Readiness comes before the first delivery, and only something delivered is flushed. -/
structure Gated (σ : State) : Prop where
  streaming : σ.phase = .streaming → σ.vars.ready = true
  pending : σ.vars.pendingCommit.isSome = true → σ.vars.ready = true
  flushing : ∀ landed, σ.phase = .flushing landed → σ.vars.pendingCommit.isSome = true

theorem Gated.initial : Gated .initial := by
  constructor
  · intro h
    cases h
  · intro h
    cases h
  · intro landed h
    cases h

theorem Gated.step (h : Gated σ) (hs : Step c σ σ') : Gated σ' := by
  constructor
  · intro hstreaming
    rcases hs.to_streaming hstreaming with hp | hready
    · rcases hs.pending with ⟨-, hsame⟩ | ⟨htop, -⟩ | ⟨-, hready⟩ | ⟨-, -, hsame⟩
      · exact hsame.trans (h.streaming hp)
      · exact absurd (htop.symm.trans hstreaming) nofun
      · exact hready
      · exact hsame.trans (h.streaming hp)
    · exact hready
  · intro hpending
    rcases hs.pending with ⟨hsame, hready⟩ | ⟨-, hnone⟩ | ⟨-, hready⟩ | ⟨hp, -, hready⟩
    · exact hready.trans (h.pending (hsame ▸ hpending))
    · rw [hnone] at hpending
      cases hpending
    · exact hready
    · exact hready.trans (h.streaming hp)
  · intro landed hflushing
    obtain ⟨hsame, hpending | ⟨before, hp⟩⟩ := hs.to_flushing hflushing
    · exact hsame ▸ hpending
    · exact hsame ▸ h.flushing before hp

theorem Step.departs (h : Step c σ σ') (hgated : Gated σ) (hexits : σ.phase.exits = true) :
    Departs σ σ' := by
  cases h with
  | part short shortSessions hp => exact .part short shortSessions hp
  | flush hp hpending => exact .flush hp
  | quit hp => exact .quit hp
  | land cp hp => exact .land cp hp
  | flushed cp ok hp => exact .flushed cp ok hp
  | cancel hwaits => cases hp : σ.phase <;> simp [hp, Phase.waits, Phase.exits] at hwaits hexits
  | miss outcome hconnects _ =>
    cases hp : σ.phase <;> simp [hp, Phase.connects, Phase.exits] at hconnects hexits
  | drop hp _ => rcases hp with hp | hp <;> simp [hp, Phase.exits] at hexits
  | close hp => rcases hp with hp | hp <;> simp [hp, Phase.exits] at hexits
  | stop hp => rcases hp with hp | hp <;> simp [hp, Phase.exits] at hexits
  | expire _ hready hp =>
    rcases hp with ⟨hwaits, -⟩ | ⟨landed, hp⟩
    · cases hp : σ.phase <;> simp [hp, Phase.waits, Phase.exits] at hwaits hexits
    · have hpending := hgated.pending (hgated.flushing landed hp)
      rw [hready] at hpending
      cases hpending
  | _ => simp [*, Phase.exits] at hexits

theorem Departs.exits (h : Departs σ σ') : σ'.phase.exits = true := by
  cases h with
  | part short shortSessions hp => exact congrArg Phase.exits hp
  | _ => rfl

theorem Departs.trace (h : Departs σ σ') :
    σ'.trace = σ.trace ∨ ∃ e, σ'.trace = σ.trace ++ [e] ∧ Parting e := by
  cases h with
  | part short shortSessions hp => exact .inr ⟨_, rfl, trivial⟩
  | flush hp => exact .inl rfl
  | quit hp => exact .inl rfl
  | land cp hp => exact .inr ⟨_, rfl, trivial⟩
  | flushed cp ok hp => exact .inr ⟨_, rfl, trivial⟩

end Control
end Aviso.Watch
