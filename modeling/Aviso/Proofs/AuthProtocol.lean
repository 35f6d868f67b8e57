import Aviso.Proofs.ReplayCompletion

namespace Aviso.Watch

open Lib (Machine)

/-- The error of a second rejection. -/
def rejectedAfterRefresh : ClientError := .auth "authentication rejected after refresh"

/-- What an effect is to the protocol of the credentials. -/
inductive AuthEvent where
  | refresh
  | attempt
  | wait
  /-- A connection is answered with 401. -/
  | rejection
  /-- A connection ends in another way. -/
  | outcome
  | error (e : ClientError)
  | parting
  | other
  deriving DecidableEq, Repr

def Effect.auth : Effect → AuthEvent
  | .refreshCalled => .refresh
  | .requested _ => .attempt
  | .backedOff _ => .wait
  | .ended .cancelled _ => .parting
  | .ended (.httpStatus status _ _ _) _ => if status = 401 then .rejection else .outcome
  | .ended _ _ => .outcome
  | .reported e => .error e
  | .landed _ | .put _ _ => .parting
  | .fetched _ | .confirmed _ | .received _ | .dispatched _ | .attempted _ _ | .sent _ => .other

/-- Where the credentials stand: nothing owed, a refresh owed to a 401, a refresh
called for it, or rejected again. -/
inductive AuthPhase where
  | settled
  | rejected
  | refreshed
  | spent
  deriving DecidableEq, Repr

/-- The protocol of the credentials: one refresh between a 401 and the next attempt, no
other one, and no attempt once a second 401 follows it. -/
def AuthPhase.next : Machine AuthPhase AuthEvent
  | .settled, .refresh => none
  | .settled, .rejection => some .rejected
  | .settled, _ => some .settled
  | .rejected, .refresh => some .refreshed
  | .rejected, .error _ | .rejected, .parting => some .rejected
  | .rejected, _ => none
  | .refreshed, .refresh => none
  | .refreshed, .rejection => some .spent
  | .refreshed, .outcome => some .settled
  | .refreshed, _ => some .refreshed
  | .spent, .error e => if e = rejectedAfterRefresh then some .spent else none
  | .spent, .parting => some .spent
  | .spent, _ => none

/-- Where the effects of a run leave the credentials, if they keep to the protocol. -/
def authOf (t : List Effect) : Option AuthPhase :=
  Machine.run AuthPhase.next .settled (t.map Effect.auth)

theorem authOf_snoc (h : authOf t = some a) (hnext : a.next e.auth = some a') :
    authOf (t ++ [e]) = some a' := by
  unfold authOf
  rw [List.map_append]
  exact Machine.run_snoc h hnext

namespace Control

variable {c : Setup} {σ σ' : State}

/-- No connection of this turn of the loop has been confirmed. -/
def Phase.fresh : Phase → Bool
  | .checked | .resting | .refreshing | .connecting | .asking _ | .opening
  | .ended (.httpStatus _ _ _ _) => true
  | _ => false

/-- The reducer goes on, and no reconnect is owed. -/
def Ready (v : Supervisor) : Prop := v.lastReconnectPolicy = none ∧ v.state.isTerminal = false

/-- Where the credentials can stand in a phase of the loop. -/
def Phase.Fits (phase : Phase) (v : Supervisor) (a : AuthPhase) : Prop :=
  match phase with
  | .starting => a = .settled ∧ v.state.connectionStatus ≠ .refreshingAuth
  | .top | .checked =>
    v.refreshedForCurrentAttempt = false ∧
      (a = .settled ∧ v.state.connectionStatus ≠ .refreshingAuth ∨
        a = .rejected ∧ v.state.connectionStatus = .refreshingAuth ∧ v.lastReconnectPolicy = none)
  | .resting =>
    v.refreshedForCurrentAttempt = false ∧ a = .settled ∧ v.state.connectionStatus ≠ .refreshingAuth
  | .refreshing => a = .refreshed ∧ v.state.connectionStatus = .refreshingAuth
  | .connecting | .asking _ | .opening | .streaming | .ended _ =>
    v.state.connectionStatus ≠ .refreshingAuth ∧
      (a = .settled ∧ v.refreshedForCurrentAttempt = false ∨
        a = .refreshed ∧ v.refreshedForCurrentAttempt = true)
  | .reporting e => a = .spent → e = rejectedAfterRefresh
  | .leaving | .flushing _ | .done => True

/-- The credentials stand where the loop takes them to stand. -/
structure Authed (σ : State) : Prop where
  gated : Gated σ
  fresh : σ.phase.fresh = true → Ready σ.vars
  stands : ∃ a, authOf σ.trace = some a ∧ σ.phase.Fits σ.vars a

theorem Authed.initial : Authed .initial where
  gated := .initial
  fresh := nofun
  stands := ⟨.settled, rfl, rfl, nofun⟩

/-- Only a 401 asks for a refresh. -/
theorem transition_status (s : WatchState) (event : WatchEvent) (h : event ≠ .authRejected)
    (hs : s.connectionStatus ≠ .refreshingAuth) :
    (s.transition event).2.connectionStatus ≠ .refreshingAuth := by
  unfold WatchState.transition
  split
  · exact hs
  · cases event with
    | serverClose reason =>
      cases reason with
      | endOfStream =>
        simp only [WatchState.handleServerClose, WatchState.handleEndOfStream]
        split
        · exact hs
        · rintro ⟨⟩
      | maxDurationReached => rintro ⟨⟩
      | serverShutdown => rintro ⟨⟩
    | backoffElapsed =>
      dsimp only
      split
      · rintro ⟨⟩
      · exact hs
    | authRefreshCompleted success =>
      cases success with
      | true => rintro ⟨⟩
      | false => exact hs
    | replayCompleted =>
      simp only [WatchState.handleReplayCompleted]
      split <;> exact hs
    | authRejected => exact absurd rfl h
    | connectionEstablished => rintro ⟨⟩
    | connectionLost reason => rintro ⟨⟩
    | heartbeatStarvation => rintro ⟨⟩
    | backoffStarted duration => rintro ⟨⟩
    | heartbeatReceived => exact hs
    | notificationReceived sequence => exact hs
    | gapDetected reason => exact hs
    | fatal kind => exact hs
    | stop => exact hs

/-- The status a fresh turn of the loop starts from is not refreshing. -/
theorem from_status (h : WatchState.from mode cursor = some state) :
    state.connectionStatus ≠ .refreshingAuth := by
  cases mode with
  | watch =>
    cases h
    exact nofun
  | replayOnly =>
    cases cursor with
    | none => cases h
    | some cursor =>
      cases h
      exact nofun

theorem hear_status (v : Supervisor) (m : Incoming) (hs : v.state.connectionStatus ≠ .refreshingAuth) :
    (v.hear m).state.connectionStatus ≠ .refreshingAuth := by
  cases m with
  | established => exact transition_status _ _ nofun hs
  | notification n => exact transition_status _ _ nofun hs
  | heartbeat => exact transition_status _ _ nofun hs
  | replayCompleted => exact transition_status _ _ nofun hs
  | closing reason => exact transition_status _ _ nofun hs
  | _ => exact hs

/-- An effect that is nothing to the credentials leaves them where a connection finds them. -/
theorem AuthPhase.connected (ha : a = .settled ∨ a = .refreshed)
    (he : e = .attempt ∨ e = .wait ∨ e = .parting ∨ e = .other) : AuthPhase.next a e = some a := by
  rcases ha with rfl | rfl <;> rcases he with rfl | rfl | rfl | rfl <;> rfl

/-- Any other end of a connection than a 401 settles the credentials. -/
theorem AuthPhase.concluded (ha : a = .settled ∨ a = .refreshed) :
    AuthPhase.next a .outcome = some .settled := by
  rcases ha with rfl | rfl <;> rfl

theorem Phase.Fits.connected (h : Phase.Fits .streaming v a) : a = .settled ∨ a = .refreshed :=
  h.2.imp And.left And.left

theorem Phase.Fits.open (h : Phase.Fits phase v a) (hconnects : phase.connects = true) :
    Phase.Fits .streaming v a := by
  cases phase with
  | connecting => exact h
  | asking body => exact h
  | opening => exact h
  | streaming => exact h
  | _ => cases hconnects

theorem connects_of (hp : phase = .opening ∨ phase = .streaming) : Phase.connects phase = true := by
  rcases hp with rfl | rfl <;> rfl

theorem Handles.auth (h : Handles e) : e.auth = .parting ∨ e.auth = .other := by
  cases e with
  | received n => exact .inr rfl
  | landed cp => exact .inl rfl
  | put cp ok => exact .inl rfl
  | dispatched n => exact .inr rfl
  | attempted trigger result => exact .inr rfl
  | _ => cases h

/-- The end of a connection that was not answered with 401, as the credentials see it. -/
theorem Phase.Fits.concluded (h : Phase.Fits (.ended outcome) v a)
    (hauth : (Effect.ended outcome short).auth = .outcome)
    (hphase : Phase.Fits phase v' .settled) :
    ∃ a', a.next (Effect.ended outcome short).auth = some a' ∧ phase.Fits v' a' :=
  ⟨.settled, hauth ▸ AuthPhase.concluded h.connected, hphase⟩

theorem Judged.authed (h : Judged c v outcome v' phase) (hauth : c.hasAuth = true)
    (hfits : Phase.Fits (.ended outcome) v a)
    (hfresh : (Phase.ended outcome).fresh = true → Ready v) :
    ∃ a', a.next (Effect.ended outcome short).auth = some a' ∧ phase.Fits v' a' := by
  have hstatus := hfits.1
  have hlost : (v.state.transition (.connectionLost .transportError)).2.connectionStatus ≠ .refreshingAuth :=
    transition_status _ _ (by rintro ⟨⟩) hstatus
  cases h with
  | again => exact hfits.concluded rfl ⟨rfl, .inl ⟨rfl, hstatus⟩⟩
  | missed => exact hfits.concluded rfl ⟨rfl, .inl ⟨rfl, hlost⟩⟩
  | late e => exact hfits.concluded rfl ⟨rfl, .inl ⟨rfl, hlost⟩⟩
  | eof => exact hfits.concluded rfl ⟨rfl, .inl ⟨rfl, hstatus⟩⟩
  | starved => exact hfits.concluded rfl ⟨rfl, .inl ⟨rfl, hstatus⟩⟩
  | busy hstatus =>
    refine hfits.concluded (if_neg ?_) ⟨rfl, .inl ⟨rfl, hlost⟩⟩
    omega
  | failed hlow hhigh hbusy =>
    refine hfits.concluded (if_neg ?_) ⟨rfl, .inl ⟨rfl, hlost⟩⟩
    omega
  | rejected _ hflag =>
    obtain ⟨hpolicy, hterminal⟩ := hfresh rfl
    rcases hfits.2 with ⟨rfl, -⟩ | ⟨-, hrefreshed⟩
    · refine ⟨.rejected, rfl, hflag, .inr ⟨rfl, ?_, ?_⟩⟩
      · simp [Supervisor.transition, WatchState.transition, hterminal]
      · simp [Supervisor.transition, WatchState.transition, hterminal, applyOutcome, hpolicy]
    · rw [hrefreshed] at hflag
      cases hflag
  | refused hflag =>
    rcases hfits.2 with ⟨-, hnot⟩ | ⟨rfl, -⟩
    · rw [hflag] at hnot
      cases hnot
    · exact ⟨.spent, rfl, fun _ => rfl⟩
  | denied kind hdenied =>
    refine hfits.concluded (if_neg ?_) (by rintro ⟨⟩)
    intro hrejected
    rw [(hdenied hrejected).1] at hauth
    cases hauth
  | fatal e => exact hfits.concluded rfl (by rintro ⟨⟩)

/-- The events of a turn of the loop before its connection is confirmed. -/
theorem Ready.transition (h : Ready v) (he : e = .backoffStarted n ∨ e = .backoffElapsed ∨
    e = .authRefreshCompleted true) : Ready (v.transition e) := by
  obtain ⟨hpolicy, hterminal⟩ := h
  unfold Ready Supervisor.transition WatchState.transition
  rcases he with rfl | rfl | rfl
  · simp only [hterminal, Bool.false_eq_true, if_false]
    exact ⟨hpolicy, hterminal⟩
  · simp only [hterminal, Bool.false_eq_true, if_false]
    split <;> exact ⟨hpolicy, hterminal⟩
  · simp only [hterminal, Bool.false_eq_true, if_false]
    exact ⟨hpolicy, hterminal⟩

theorem Step.fresh (hs : Step c σ σ') (h : σ.phase.fresh = true → Ready σ.vars)
    (hfresh : σ'.phase.fresh = true) : Ready σ'.vars := by
  cases hs with
  | skip hp hterminal _ hpolicy => exact ⟨hpolicy, hterminal⟩
  | hurry jitter policy hp hterminal _ _ _ => exact ⟨rfl, hterminal⟩
  | rest jitter policy hp hterminal _ _ _ =>
    have hready : Ready σ.vars.settled := ⟨rfl, hterminal⟩
    exact hready.transition (.inl rfl)
  | wake hp => exact (h (congrArg Phase.fresh hp)).transition (n := 0) (.inr (.inl rfl))
  | refresh hp => exact h (congrArg Phase.fresh hp)
  | proceed hp => exact h (congrArg Phase.fresh hp)
  | refreshed hp =>
    have hready : Ready { σ.vars with refreshedForCurrentAttempt := true } := h (congrArg Phase.fresh hp)
    exact hready.transition (n := 0) (.inr (.inr rfl))
  | ask body hp _ => exact h (congrArg Phase.fresh hp)
  | request hp => exact h (congrArg Phase.fresh hp)
  | answer status body requestId retryAfter hp => exact h (congrArg Phase.fresh hp)
  | miss outcome _ hmisses =>
    cases outcome with
    | httpStatus status body requestId retryAfter => cases hmisses
    | _ => exact absurd hfresh nofun
  | drop _ hdrops => cases hdrops <;> cases hfresh
  | judge short shortSessions hp hjudged =>
    obtain ⟨-, -, htop | ⟨e, hreport⟩⟩ := hjudged.keeps
    · exact absurd ((congrArg Phase.fresh htop).symm.trans hfresh) nofun
    · exact absurd ((congrArg Phase.fresh hreport).symm.trans hfresh) nofun
  | fetch held hp => exact absurd ((congrArg Phase.fresh hp).symm.trans hfresh) nofun
  | hear m hp => exact absurd ((congrArg Phase.fresh hp).symm.trans hfresh) nofun
  | handle e hp _ => exact absurd ((congrArg Phase.fresh hp).symm.trans hfresh) nofun
  | commit p hp _ => exact absurd ((congrArg Phase.fresh hp).symm.trans hfresh) nofun
  | deliver n hp => exact absurd ((congrArg Phase.fresh hp).symm.trans hfresh) nofun
  | part short shortSessions hp => exact absurd ((congrArg Phase.fresh hp).symm.trans hfresh) nofun
  | _ => cases hfresh

/-- The watch is over for a second rejection only where it reports it, and after. -/
theorem Phase.Fits.spent (h : Phase.Fits phase v .spent) :
    phase = .reporting rejectedAfterRefresh ∨ phase.exits = true := by
  cases phase with
  | reporting e => exact .inl (congrArg Phase.reporting (h rfl))
  | leaving => exact .inr rfl
  | flushing landed => exact .inr rfl
  | done => exact .inr rfl
  | starting => exact nomatch h.1
  | top => rcases h.2 with ⟨hnot, -⟩ | ⟨hnot, -⟩ <;> cases hnot
  | checked => rcases h.2 with ⟨hnot, -⟩ | ⟨hnot, -⟩ <;> cases hnot
  | resting => exact nomatch h.2.1
  | refreshing => exact nomatch h.1
  | connecting => exact nomatch h.connected
  | asking body => exact nomatch h.connected
  | opening => exact nomatch h.connected
  | streaming => exact nomatch h.connected
  | ended outcome => exact nomatch h.connected

theorem Phase.Fits.waiting (h : Phase.Fits phase v a) (hwaits : phase.waits = true)
    (hreports : ∀ e, phase ≠ .reporting e) : a ≠ .spent := by
  rintro rfl
  rcases h.spent with hp | hexits
  · exact hreports _ hp
  · cases phase <;> simp [Phase.waits, Phase.exits] at hwaits hexits

/-- The credentials after a step that emits nothing. -/
theorem Authed.silent (h : authOf σ.trace = some a) (htrace : σ'.trace = σ.trace)
    (hfits : σ'.phase.Fits σ'.vars a) : ∃ a, authOf σ'.trace = some a ∧ σ'.phase.Fits σ'.vars a :=
  ⟨a, htrace ▸ h, hfits⟩

/-- The credentials after a step that emits `e`. -/
theorem Authed.emitting (h : authOf σ.trace = some a) (htrace : σ'.trace = σ.trace ++ [e])
    (hnext : ∃ a', a.next e.auth = some a' ∧ σ'.phase.Fits σ'.vars a') :
    ∃ a, authOf σ'.trace = some a ∧ σ'.phase.Fits σ'.vars a := by
  obtain ⟨a', hnext, hfits⟩ := hnext
  exact ⟨a', htrace ▸ authOf_snoc h hnext, hfits⟩

theorem Authed.step (h : Authed σ) (hauth : c.hasAuth = true) (hs : Step c σ σ') : Authed σ' := by
  obtain ⟨hgated, hfresh, a, hstands, hfits⟩ := h
  refine ⟨hgated.step hs, hs.fresh hfresh, ?_⟩
  cases hs with
  | fetch held hp =>
    rw [hp] at hfits
    obtain ⟨rfl, hstatus⟩ := hfits
    exact Authed.emitting hstands rfl ⟨.settled, rfl, by rw [State.emit_phase, hp]; exact ⟨rfl, hstatus⟩⟩
  | resolve cursor state hp hstate =>
    rw [hp] at hfits
    obtain ⟨rfl, -⟩ := hfits
    exact Authed.silent hstands rfl ⟨rfl, .inl ⟨rfl, from_status hstate⟩⟩
  | refuse e hp =>
    rw [hp] at hfits
    obtain ⟨rfl, -⟩ := hfits
    exact Authed.silent hstands rfl (by rintro ⟨⟩)
  | finish hp _ => exact Authed.silent hstands rfl trivial
  | skip hp _ _ _ =>
    rw [hp] at hfits
    exact Authed.silent hstands rfl hfits
  | hurry jitter policy hp _ _ hpolicy _ =>
    rw [hp] at hfits
    rcases hfits with ⟨hflag, ⟨rfl, hstatus⟩ | ⟨-, -, hnone⟩⟩
    · exact Authed.emitting hstands rfl ⟨.settled, rfl, hflag, .inl ⟨rfl, hstatus⟩⟩
    · rw [hpolicy] at hnone
      cases hnone
  | rest jitter policy hp _ _ hpolicy _ =>
    rw [hp] at hfits
    rcases hfits with ⟨hflag, ⟨rfl, hstatus⟩ | ⟨-, -, hnone⟩⟩
    · exact Authed.emitting hstands rfl ⟨.settled, rfl, hflag, rfl, transition_status _ _ (by rintro ⟨⟩) hstatus⟩
    · rw [hpolicy] at hnone
      cases hnone
  | wake hp =>
    rw [hp] at hfits
    obtain ⟨hflag, rfl, hstatus⟩ := hfits
    exact Authed.silent hstands rfl ⟨hflag, .inl ⟨rfl, transition_status _ _ (by rintro ⟨⟩) hstatus⟩⟩
  | refresh hp hrefreshing _ =>
    rw [hp] at hfits
    rcases hfits with ⟨-, ⟨-, hstatus⟩ | ⟨rfl, -, -⟩⟩
    · exact absurd hrefreshing hstatus
    · exact Authed.emitting hstands rfl ⟨.refreshed, rfl, rfl, hrefreshing⟩
  | unprovided e hp _ hnone =>
    rw [hauth] at hnone
    cases hnone
  | proceed hp hstatus =>
    rw [hp] at hfits
    rcases hfits with ⟨hflag, ⟨rfl, -⟩ | ⟨-, hrefreshing, -⟩⟩
    · exact Authed.silent hstands rfl ⟨hstatus, .inl ⟨rfl, hflag⟩⟩
    · exact absurd hrefreshing hstatus
  | refreshed hp =>
    have hready := hfresh (congrArg Phase.fresh hp)
    rw [hp] at hfits
    obtain ⟨rfl, -⟩ := hfits
    refine Authed.silent hstands rfl ⟨?_, .inr ⟨rfl, rfl⟩⟩
    simp [Supervisor.transition, WatchState.transition, hready.2]
  | refreshFailed e hp =>
    rw [hp] at hfits
    obtain ⟨rfl, -⟩ := hfits
    exact Authed.silent hstands rfl (by rintro ⟨⟩)
  | ask body hp _ =>
    rw [hp] at hfits
    exact Authed.silent hstands rfl hfits
  | request hp =>
    rw [hp] at hfits
    exact Authed.emitting hstands rfl ⟨a, AuthPhase.connected hfits.connected (.inl rfl), hfits⟩
  | miss outcome hconnects _ =>
    have hopen := hfits.open hconnects
    exact Authed.silent hstands rfl hopen
  | answer status body requestId retryAfter hp =>
    rw [hp] at hfits
    exact Authed.silent hstands rfl hfits
  | drop hp hdrops =>
    have hopen := hfits.open (connects_of hp)
    refine Authed.silent hstands rfl ⟨?_, hopen.2⟩
    cases hdrops <;> exact transition_status _ _ (by rintro ⟨⟩) hopen.1
  | confirm opening hp =>
    rw [hp] at hfits
    exact Authed.emitting hstands rfl ⟨a, AuthPhase.connected hfits.connected (.inr (.inr (.inr rfl))),
      transition_status _ _ (by rintro ⟨⟩) hfits.1, hfits.2⟩
  | hear m hp =>
    rw [hp] at hfits
    refine Authed.silent hstands rfl ?_
    rw [State.see_phase, State.set_phase, hp]
    refine ⟨hear_status _ m hfits.1, ?_⟩
    simpa using hfits.2
  | handle e hp hhandles =>
    rw [hp] at hfits
    refine Authed.emitting hstands rfl ⟨a, AuthPhase.connected hfits.connected ?_, ?_⟩
    · exact .inr (.inr hhandles.auth)
    · rw [State.emit_phase, hp]
      exact hfits
  | commit p hp _ =>
    refine Authed.silent hstands rfl ?_
    rw [hp] at hfits
    rw [State.set_phase, hp]
    exact hfits
  | deliver n hp =>
    rw [hp] at hfits
    refine Authed.emitting hstands rfl ⟨a, AuthPhase.connected hfits.connected (.inr (.inr (.inr rfl))), ?_⟩
    rw [State.set_phase, State.emit_phase, hp]
    exact hfits
  | close hp =>
    have hopen := hfits.open (connects_of hp)
    exact Authed.silent hstands rfl hopen
  | gap reason hp =>
    rw [hp] at hfits
    refine Authed.silent hstands rfl ?_
    rintro rfl
    rcases hfits.connected with heq | heq <;> cases heq
  | fail e hp =>
    rw [hp] at hfits
    refine Authed.silent hstands rfl ?_
    rintro rfl
    rcases hfits.connected with heq | heq <;> cases heq
  | judge short shortSessions hp hjudged =>
    rw [hp] at hfits hfresh
    exact Authed.emitting hstands rfl (hjudged.authed hauth hfits hfresh)
  | cancel hwaits => exact Authed.silent hstands rfl trivial
  | stop hp => exact Authed.silent hstands rfl trivial
  | expire _ hready hp =>
    refine Authed.silent hstands rfl ?_
    rcases hp with ⟨hwaits, hreports⟩ | ⟨landed, hp⟩
    · intro hover
      exact absurd hover (hfits.waiting hwaits hreports)
    · have hpending := hgated.pending (hgated.flushing landed hp)
      rw [hready] at hpending
      cases hpending
  | report hp =>
    rw [hp] at hfits
    refine Authed.emitting hstands rfl ⟨a, ?_, trivial⟩
    cases a with
    | spent => exact if_pos (hfits rfl)
    | _ => rfl
  | part short shortSessions hp =>
    refine Authed.emitting hstands rfl ⟨a, ?_, ?_⟩
    · cases a <;> rfl
    · rw [State.set_phase, State.emit_phase, hp]
      trivial
  | flush hp _ => exact Authed.silent hstands rfl trivial
  | quit hp => exact Authed.silent hstands rfl trivial
  | land cp hp =>
    refine Authed.emitting hstands rfl ⟨a, ?_, trivial⟩
    cases a <;> rfl
  | flushed cp ok hp =>
    refine Authed.emitting hstands rfl ⟨a, ?_, trivial⟩
    cases a <;> rfl

end Control
end Aviso.Watch
