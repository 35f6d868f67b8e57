import Aviso.Proofs.ControlRefinement

namespace Aviso.Watch

namespace Control

variable {c : Setup} {σ σ' : State}

theorem Judged.keeps (h : Judged c v outcome v' phase) :
    v'.pendingCommit = v.pendingCommit ∧ v'.ready = v.ready ∧ (phase = .top ∨ ∃ e, phase = .reporting e) := by
  cases h with
  | refused _ => exact ⟨rfl, rfl, .inr ⟨_, rfl⟩⟩
  | denied kind _ => exact ⟨rfl, rfl, .inr ⟨_, rfl⟩⟩
  | fatal e => exact ⟨rfl, rfl, .inr ⟨_, rfl⟩⟩
  | _ => exact ⟨rfl, rfl, .inl rfl⟩

/-- What a step does to readiness and to the notification that awaits its commit. -/
theorem Step.pending (h : Step c σ σ') :
    (σ'.vars.pendingCommit = σ.vars.pendingCommit ∧ σ'.vars.ready = σ.vars.ready) ∨
      (σ'.phase = .top ∧ σ'.vars.pendingCommit = none) ∨
      (σ'.phase = .streaming ∧ σ'.vars.ready = true) ∨
      (σ.phase = .streaming ∧ σ'.phase = .streaming ∧ σ'.vars.ready = σ.vars.ready) := by
  cases h with
  | resolve cursor state hp hstate => exact .inr (.inl ⟨rfl, rfl⟩)
  | confirm opening hp => exact .inr (.inr (.inl ⟨rfl, rfl⟩))
  | deliver n hp => exact .inr (.inr (.inr ⟨hp, hp, rfl⟩))
  | judge short shortSessions hp hjudged => exact .inl ⟨hjudged.keeps.1, hjudged.keeps.2.1⟩
  | hear m hp => exact .inl ⟨by simp, by simp⟩
  | _ => exact .inl ⟨rfl, rfl⟩

theorem Step.to_streaming (h : Step c σ σ') (hs : σ'.phase = .streaming) :
    σ.phase = .streaming ∨ σ'.vars.ready = true := by
  cases h with
  | fetch held hp => exact absurd (hp.symm.trans hs) nofun
  | confirm opening hp => exact .inr rfl
  | hear m hp => exact .inl hp
  | handle e hp _ => exact .inl hp
  | commit p hp _ => exact .inl hp
  | deliver n hp => exact .inl hp
  | judge short shortSessions hp hjudged =>
    obtain ⟨-, -, htop | ⟨e, hreport⟩⟩ := hjudged.keeps
    · exact absurd (htop.symm.trans hs) nofun
    · exact absurd (hreport.symm.trans hs) nofun
  | part short shortSessions hp => exact absurd (hp.symm.trans hs) nofun
  | _ => cases hs

theorem Step.to_flushing (h : Step c σ σ') (hs : σ'.phase = .flushing landed) :
    σ'.vars.pendingCommit = σ.vars.pendingCommit ∧
      (σ.vars.pendingCommit.isSome = true ∨ ∃ landed, σ.phase = .flushing landed) := by
  cases h with
  | fetch held hp => exact absurd (hp.symm.trans hs) nofun
  | hear m hp => exact absurd (hp.symm.trans hs) nofun
  | handle e hp _ => exact absurd (hp.symm.trans hs) nofun
  | commit p hp _ => exact absurd (hp.symm.trans hs) nofun
  | deliver n hp => exact absurd (hp.symm.trans hs) nofun
  | judge short shortSessions hp hjudged =>
    obtain ⟨-, -, htop | ⟨e, hreport⟩⟩ := hjudged.keeps
    · exact absurd (htop.symm.trans hs) nofun
    · exact absurd (hreport.symm.trans hs) nofun
  | part short shortSessions hp => exact absurd (hp.symm.trans hs) nofun
  | flush hp hpending => exact ⟨rfl, .inl hpending⟩
  | land cp hp => exact ⟨rfl, .inr ⟨_, hp⟩⟩
  | _ => cases hs

/-- Where each effect of a run comes from. -/
def Emits (c : Setup) (σ σ' : State) : Effect → Prop
  | .fetched _ => σ.phase = .starting ∧ σ'.phase = .starting
  | .backedOff _ => σ.phase = .top ∧ (σ'.phase = .checked ∨ σ'.phase = .resting)
  | .refreshCalled => σ.phase = .checked ∧ σ'.phase = .refreshing
  | .requested body => σ.phase = .asking body ∧ σ'.phase = .opening
  | .confirmed opening =>
    σ.phase = .opening ∧ σ'.phase = .streaming ∧ σ'.vars = σ.vars.confirmed c opening
  | .received _ | .dispatched _ | .attempted _ _ | .sent _ => σ.phase = .streaming ∧ σ'.phase = .streaming
  | .landed _ => σ'.phase = σ.phase ∨ σ'.phase = .flushing true
  | .put _ _ => σ'.phase = σ.phase ∨ σ'.phase = .done
  | .reported e => σ.phase = .reporting e ∧ σ'.phase = .leaving
  | .ended outcome _ =>
    (outcome = .cancelled ∧ σ.phase = .leaving ∧ σ'.phase = .leaving) ∨
      (σ.phase = .ended outcome ∧ ∃ shortSessions,
        Judged c { σ.vars with shortSessions := shortSessions } outcome σ'.vars σ'.phase)

/-- A step emits at most one effect. -/
theorem Step.emits (h : Step c σ σ') :
    σ'.trace = σ.trace ∨ ∃ e, σ'.trace = σ.trace ++ [e] ∧ Emits c σ σ' e := by
  cases h with
  | fetch held hp => exact .inr ⟨_, rfl, hp, hp⟩
  | hurry jitter policy hp => exact .inr ⟨_, rfl, hp, .inl rfl⟩
  | rest jitter policy hp => exact .inr ⟨_, rfl, hp, .inr rfl⟩
  | refresh hp => exact .inr ⟨_, rfl, hp, rfl⟩
  | request hp => exact .inr ⟨_, rfl, hp, rfl⟩
  | confirm opening hp => exact .inr ⟨_, rfl, hp, rfl, rfl⟩
  | handle e hp hhandles =>
    refine .inr ⟨e, rfl, ?_⟩
    cases e with
    | received n => exact ⟨hp, hp⟩
    | landed cp => exact .inl rfl
    | put cp ok => exact .inl rfl
    | dispatched n => exact ⟨hp, hp⟩
    | attempted trigger result => exact ⟨hp, hp⟩
    | _ => cases hhandles
  | deliver n hp => exact .inr ⟨_, rfl, hp, hp⟩
  | judge short shortSessions hp hjudged => exact .inr ⟨_, rfl, .inr ⟨hp, shortSessions, hjudged⟩⟩
  | report hp => exact .inr ⟨_, rfl, hp, rfl⟩
  | part short shortSessions hp => exact .inr ⟨_, rfl, .inl ⟨rfl, hp, hp⟩⟩
  | land cp hp => exact .inr ⟨_, rfl, .inr rfl⟩
  | flushed cp ok hp => exact .inr ⟨_, rfl, .inr rfl⟩
  | _ => exact .inl rfl

/-- The variables that say where a replay stands are the same. -/
structure Stands (v v' : Supervisor) : Prop where
  initialCursor : v'.initialCursor = v.initialCursor
  commitCursor : v'.commitCursor = v.commitCursor
  pendingCommit : v'.pendingCommit = v.pendingCommit
  resolvedEnd : v'.resolvedEnd = v.resolvedEnd

theorem Judged.stands (h : Judged c v outcome v' phase) : Stands v v' := by
  cases h <;> exact ⟨rfl, rfl, rfl, rfl⟩

/-- What a step does to the variables that say where a replay stands. -/
theorem Step.stands (h : Step c σ σ') :
    Stands σ.vars σ'.vars ∨
      (σ.phase = .starting ∧ σ'.phase = .top ∧ σ'.trace = σ.trace ∧
        ∃ state cursor, σ'.vars = .start state cursor) ∨
      (∃ opening, σ'.phase = .streaming ∧ σ'.vars = σ.vars.confirmed c opening ∧
        σ'.trace = σ.trace ++ [.confirmed opening]) ∨
      (σ'.phase = .streaming ∧ σ'.vars.initialCursor = σ.vars.initialCursor ∧
        σ'.vars.resolvedEnd = σ.vars.resolvedEnd ∧
        (σ'.vars.commitCursor = none → σ.vars.commitCursor = none)) := by
  cases h with
  | resolve cursor state hp hstate => exact .inr (.inl ⟨hp, rfl, rfl, state, cursor, rfl⟩)
  | confirm opening hp => exact .inr (.inr (.inl ⟨opening, rfl, rfl, rfl⟩))
  | commit p hp hpending => exact .inr (.inr (.inr ⟨hp, rfl, rfl, nofun⟩))
  | deliver n hp => exact .inr (.inr (.inr ⟨hp, rfl, rfl, id⟩))
  | hear m hp => exact .inl ⟨by simp, by simp, by simp, by simp⟩
  | judge short shortSessions hp hjudged =>
    exact .inl ⟨hjudged.stands.initialCursor, hjudged.stands.commitCursor,
      hjudged.stands.pendingCommit, hjudged.stands.resolvedEnd⟩
  | _ => exact .inl ⟨rfl, rfl, rfl, rfl⟩

end Control
end Aviso.Watch
