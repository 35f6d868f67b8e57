import Aviso.Proofs.ReplayRange

namespace Aviso.Watch

open Lib (Always Machine)

/-- The events by which a reducer stops for good, or loses its place. -/
def WatchEvent.ends : WatchEvent → Bool
  | .authRefreshCompleted false | .gapDetected _ | .fatal _ | .stop => true
  | _ => false

/-- What one event does to the replay phase. -/
inductive Shifts : WatchEvent → ReplayPhase → ReplayPhase → Prop where
  | stay : Shifts event phase phase
  | live : Shifts .replayCompleted phase .live
  | complete (start : ResumeStart) : Shifts .replayCompleted phase (.replaying start true)
  | close (start : ResumeStart) :
      Shifts (.serverClose .endOfStream) (.replaying start true) (.closed .endOfStream)
  | gap (reason : GapReason) : event.ends = true → Shifts event phase (.gapDetected reason)
  | end (reason : CloseReason) : event.ends = true → reason ≠ .endOfStream →
      Shifts event phase (.closed reason)

theorem WatchState.transition_shifts (s : WatchState) (event : WatchEvent) :
    Shifts event s.replayPhase (s.transition event).2.replayPhase := by
  unfold WatchState.transition
  split
  · exact .stay
  · cases event with
    | serverClose reason =>
      cases reason with
      | endOfStream =>
        simp only [handleServerClose, handleEndOfStream]
        split
        · rename_i start hmode hphase
          rw [hphase]
          exact .close start
        · exact .stay
      | maxDurationReached => exact .stay
      | serverShutdown => exact .stay
    | backoffElapsed =>
      dsimp only
      split <;> exact .stay
    | authRefreshCompleted success =>
      cases success with
      | true => exact .stay
      | false => exact .end _ rfl nofun
    | replayCompleted =>
      simp only [handleReplayCompleted]
      split
      · exact .live
      · exact .complete _
      · exact .stay
    | gapDetected reason => exact .gap reason rfl
    | fatal kind => exact .end _ rfl nofun
    | stop => exact .end _ rfl nofun
    | _ => exact .stay

/-- The replay phase is the same, or one a run does not come back from. -/
def Settles (old new : ReplayPhase) (loops : Bool) : Prop :=
  new = old ∨ (loops = false ∧ (∀ start, new ≠ .replaying start true) ∧ new ≠ .closed .endOfStream)

/-- The events that are not messages of the stream. -/
theorem Supervisor.transition_settles (v : Supervisor) (event : WatchEvent) (loops : Bool)
    (hcompleted : event ≠ .replayCompleted) (hclosed : event ≠ .serverClose .endOfStream)
    (hends : event.ends = true → loops = false) :
    Settles v.state.replayPhase (v.transition event).state.replayPhase loops := by
  have hshifts : Shifts event v.state.replayPhase (v.transition event).state.replayPhase :=
    v.state.transition_shifts event
  generalize (v.transition event).state.replayPhase = new at hshifts ⊢
  generalize v.state.replayPhase = old at hshifts ⊢
  cases hshifts with
  | stay => exact .inl rfl
  | live => exact absurd rfl hcompleted
  | complete start => exact absurd rfl hcompleted
  | close start => exact absurd rfl hclosed
  | gap reason h => exact .inr ⟨hends h, nofun, nofun⟩
  | «end» reason h hreason => exact .inr ⟨hends h, nofun, fun heq => hreason (by cases heq; rfl)⟩

namespace Control

variable {c : Setup} {σ σ' : State}

/-- The loop may yet make a connection. -/
def Phase.loops : Phase → Bool
  | .ended (.fatal _) | .reporting _ | .leaving | .flushing _ | .done => false
  | _ => true

theorem Judged.loops (h : Judged c v outcome v' phase) (hs : phase.loops = true) :
    (Phase.ended outcome).loops = true ∧ v'.state.replayPhase = v.state.replayPhase := by
  have hlost (reason : ConnectionLossReason) :
      (v.state.transition (.connectionLost reason)).2.replayPhase = v.state.replayPhase := by
    unfold WatchState.transition
    split <;> rfl
  cases h with
  | rejected _ _ =>
    refine ⟨rfl, ?_⟩
    simp only [Supervisor.transition, WatchState.transition]
    split <;> rfl
  | missed => exact ⟨rfl, hlost _⟩
  | late e => exact ⟨rfl, hlost _⟩
  | busy _ => exact ⟨rfl, hlost _⟩
  | failed _ _ _ => exact ⟨rfl, hlost _⟩
  | refused _ => cases hs
  | denied kind _ => cases hs
  | fatal e => cases hs
  | _ => exact ⟨rfl, rfl⟩

theorem Judged.settles (h : Judged c v outcome v' phase) :
    Settles v.state.replayPhase v'.state.replayPhase phase.loops := by
  by_cases hloops : phase.loops = true
  · exact .inl (h.loops hloops).2
  · cases h with
    | refused _ => exact v.transition_settles _ _ nofun nofun fun _ => rfl
    | denied kind _ => exact v.transition_settles _ _ nofun nofun fun _ => rfl
    | fatal e => exact .inl rfl
    | _ => exact absurd rfl hloops

theorem Step.to_loops (h : Step c σ σ') (hs : σ'.phase.loops = true) : σ.phase.loops = true := by
  cases h with
  | fetch held hp => exact hs
  | drop hp _ => rcases hp with hp | hp <;> exact congrArg Phase.loops hp
  | close hp => rcases hp with hp | hp <;> exact congrArg Phase.loops hp
  | miss outcome hconnects _ =>
    cases hp : σ.phase <;> first | rfl | simp [hp, Phase.connects] at hconnects
  | judge short shortSessions hp hjudged => exact (congrArg Phase.loops hp).trans (hjudged.loops hs).1
  | part short shortSessions hp => exact hs
  | hear m hp => exact hs
  | handle e hp _ => exact hs
  | commit p hp _ => exact hs
  | deliver n hp => exact hs
  | cancel _ => cases hs
  | stop _ => cases hs
  | expire _ _ _ => cases hs
  | report _ => cases hs
  | flush _ _ => cases hs
  | quit _ => cases hs
  | land cp _ => cases hs
  | flushed cp ok _ => cases hs
  | _ => simp [*, Phase.loops]

/-- What a step does to the replay phase and to what was heard. -/
theorem Step.replay (h : Step c σ σ') :
    (σ.phase = .starting ∧ σ'.seen = σ.seen ∧ ∃ cursor, WatchState.from c.request.mode cursor = some σ'.vars.state) ∨
      (∃ m, σ'.vars = σ.vars.hear m ∧ σ'.phase = σ.phase ∧ σ'.seen = σ.seen ++ [.heard m]) ∨
      (σ.seen <+: σ'.seen ∧
        Settles σ.vars.state.replayPhase σ'.vars.state.replayPhase σ'.phase.loops) := by
  have hsettle (event : WatchEvent) (loops : Bool) (hcompleted : event ≠ .replayCompleted)
      (hclosed : event ≠ .serverClose .endOfStream) (hends : event.ends = true → loops = false) :=
    σ.vars.transition_settles event loops hcompleted hclosed hends
  cases h with
  | resolve cursor state hp hstate => exact .inl ⟨hp, rfl, cursor, hstate⟩
  | hear m hp => exact .inr (.inl ⟨m, rfl, rfl, rfl⟩)
  | rest jitter policy hp _ _ _ _ =>
    exact .inr (.inr ⟨List.prefix_rfl, σ.vars.settled.transition_settles _ _ nofun nofun nofun⟩)
  | wake hp => exact .inr (.inr ⟨List.prefix_rfl, hsettle _ _ nofun nofun nofun⟩)
  | unprovided e hp _ _ => exact .inr (.inr ⟨List.prefix_rfl, hsettle _ _ nofun nofun fun _ => rfl⟩)
  | refreshed hp =>
    exact .inr (.inr ⟨List.prefix_rfl, Supervisor.transition_settles _ _ _ nofun nofun nofun⟩)
  | refreshFailed e hp => exact .inr (.inr ⟨List.prefix_rfl, hsettle _ _ nofun nofun fun _ => rfl⟩)
  | drop hp hdrop =>
    cases hdrop with
    | starved => exact .inr (.inr ⟨List.prefix_rfl, hsettle _ _ nofun nofun nofun⟩)
    | eof => exact .inr (.inr ⟨List.prefix_rfl, hsettle _ _ nofun nofun nofun⟩)
    | fatal kind e => exact .inr (.inr ⟨List.prefix_rfl, hsettle _ _ nofun nofun fun _ => rfl⟩)
  | confirm opening hp =>
    exact .inr (.inr ⟨List.prefix_rfl, Supervisor.transition_settles _ _ _ nofun nofun nofun⟩)
  | gap reason hp => exact .inr (.inr ⟨List.prefix_rfl, hsettle _ _ nofun nofun fun _ => rfl⟩)
  | judge short shortSessions hp hjudged => exact .inr (.inr ⟨List.prefix_rfl, hjudged.settles⟩)
  | cancel hwaits => exact .inr (.inr ⟨List.prefix_append _ _, .inl rfl⟩)
  | stop hp => exact .inr (.inr ⟨List.prefix_append _ _, hsettle _ _ nofun nofun fun _ => rfl⟩)
  | _ => exact .inr (.inr ⟨List.prefix_rfl, .inl rfl⟩)

/-- The stream said that the replay is complete, and later that it ends. -/
def Finished (seen : List Sign) : Prop :=
  [.heard .replayCompleted, .heard (.closing .endOfStream)].Sublist seen

theorem Finished.mono (h : Finished seen) (hmore : seen <+: seen') : Finished seen' :=
  h.trans hmore.sublist

/-- The replay phase is what the run was told. -/
structure Told (phase : ReplayPhase) (loops : Bool) (seen : List Sign) : Prop where
  completed : ∀ start, phase = .replaying start true → .heard .replayCompleted ∈ seen
  finished : phase = .closed .endOfStream → Finished seen
  benign : loops = true → ∀ reason, phase = .closed reason → reason = .endOfStream

theorem Told.more (h : Told phase loops seen) (hmore : seen <+: seen') : Told phase loops seen' where
  completed := fun start hs => hmore.subset (h.completed start hs)
  finished := fun hs => (h.finished hs).mono hmore
  benign := h.benign

theorem Told.settles (h : Told old loops seen) (hloops : loops' = true → loops = true)
    (hsettles : Settles old new loops') : Told new loops' seen := by
  rcases hsettles with rfl | ⟨hno, hcompleted, hclosed⟩
  · exact ⟨h.completed, h.finished, fun hl => h.benign (hloops hl)⟩
  · refine ⟨fun start hs => absurd hs (hcompleted start), fun hs => absurd hs hclosed, ?_⟩
    rw [hno]
    exact nofun

/-- A message tells the run what it does to the replay phase. -/
theorem Told.hears (h : Told old loops seen) {m : Incoming} (hevent : m.event = some event)
    (hshifts : Shifts event old new) : Told new loops (seen ++ [.heard m]) := by
  have hends : event.ends = false := by
    cases m <;> cases hevent <;> rfl
  cases hshifts with
  | stay => exact h.more (List.prefix_append _ _)
  | live => exact ⟨nofun, nofun, nofun⟩
  | complete start =>
    have hm : m = .replayCompleted := by
      cases m <;> cases hevent
      rfl
    subst hm
    exact ⟨fun _ _ => List.mem_append_right _ List.mem_cons_self, nofun, nofun⟩
  | close start =>
    have hm : m = .closing .endOfStream := by
      cases m <;> cases hevent
      rfl
    subst hm
    refine ⟨nofun, fun _ => ?_, fun _ reason hs => by cases hs; rfl⟩
    have hbefore : [Sign.heard .replayCompleted].Sublist seen :=
      List.singleton_sublist.mpr (h.completed start rfl)
    exact hbefore.append (List.Sublist.refl _)
  | gap reason hgap => exact absurd (hgap.symm.trans hends) nofun
  | «end» reason hend _ => exact absurd (hend.symm.trans hends) nofun

/-- What brought a run to its end. -/
def Accounted (c : Setup) (σ : State) : Prop :=
  (∃ e, .reported e ∈ σ.trace) ∨ .cancelled ∈ σ.seen ∨ Finished σ.seen ∨ σ.vars.reached c = true

/-- The replay phase is what the run was told, and the end of the run is accounted for. -/
structure Explained (c : Setup) (σ : State) : Prop where
  gated : Gated σ
  told : Told σ.vars.state.replayPhase σ.phase.loops σ.seen
  exits : σ.phase.exits = true → Accounted c σ

theorem Explained.initial (c : Setup) : Explained c .initial where
  gated := .initial
  told := ⟨nofun, nofun, nofun⟩
  exits := nofun

theorem WatchState.from_phase (h : WatchState.from mode cursor = some state) :
    state.replayPhase = .live ∨ ∃ start, state.replayPhase = .replaying start false := by
  cases mode with
  | watch =>
    cases h
    cases cursor with
    | none => exact .inl rfl
    | some start => exact .inr ⟨start, rfl⟩
  | replayOnly =>
    cases cursor with
    | none => cases h
    | some start =>
      cases h
      exact .inr ⟨start, rfl⟩

theorem Explained.told_step (h : Explained c σ) (hs : Step c σ σ') :
    Told σ'.vars.state.replayPhase σ'.phase.loops σ'.seen := by
  rcases hs.replay with ⟨-, hseen, cursor, hstate⟩ | ⟨m, hvars, hphase, hseen⟩ | ⟨hmore, hsettles⟩
  · rw [hseen]
    rcases WatchState.from_phase hstate with hlive | ⟨start, hreplaying⟩
    · rw [hlive]
      exact ⟨nofun, nofun, nofun⟩
    · rw [hreplaying]
      exact ⟨nofun, nofun, nofun⟩
  · rw [hvars, hphase, hseen]
    cases hevent : m.event with
    | none =>
      rw [show σ.vars.hear m = σ.vars by rw [Supervisor.hear, hevent]; rfl]
      exact h.told.more (List.prefix_append _ _)
    | some event =>
      rw [show σ.vars.hear m = σ.vars.transition event by rw [Supervisor.hear, hevent]; rfl]
      exact h.told.hears hevent (σ.vars.state.transition_shifts event)
  · exact (h.told.more hmore).settles hs.to_loops hsettles

/-- How a run comes to its end. -/
theorem Step.to_exits (h : Step c σ σ') (hs : σ'.phase.exits = true) :
    σ.phase.exits = true ∨ .cancelled ∈ σ'.seen ∨ (∃ e, .reported e ∈ σ'.trace) ∨
      (σ'.vars = σ.vars ∧ σ'.seen = σ.seen ∧ σ.phase.loops = true ∧
        (σ.vars.state.isTerminal = true ∨ σ.vars.reached c = true)) := by
  cases h with
  | finish hp hwhy => exact .inr (.inr (.inr ⟨rfl, rfl, congrArg Phase.loops hp, hwhy⟩))
  | cancel hwaits => exact .inr (.inl (List.mem_append_right _ List.mem_cons_self))
  | stop hp => exact .inr (.inl (List.mem_append_right _ List.mem_cons_self))
  | @report e hp => exact .inr (.inr (.inl ⟨_, List.mem_append_right _ List.mem_cons_self⟩))
  | judge short shortSessions hp hjudged =>
    obtain ⟨-, -, htop | ⟨e, hreport⟩⟩ := hjudged.keeps
    · exact absurd ((congrArg Phase.exits htop).symm.trans hs) nofun
    · exact absurd ((congrArg Phase.exits hreport).symm.trans hs) nofun
  | fetch held hp => exact .inl hs
  | hear m hp => exact .inl hs
  | handle e hp _ => exact .inl hs
  | commit p hp _ => exact .inl hs
  | deliver n hp => exact .inl hs
  | part short shortSessions hp => exact .inl hs
  | flush hp _ => exact .inl (congrArg Phase.exits hp)
  | quit hp => exact .inl (congrArg Phase.exits hp)
  | land cp hp => exact .inl (congrArg Phase.exits hp)
  | flushed cp ok hp => exact .inl (congrArg Phase.exits hp)
  | _ => cases hs

theorem Departs.stands (h : Departs σ σ') : Stands σ.vars σ'.vars ∧ σ'.seen = σ.seen := by
  cases h <;> exact ⟨⟨rfl, rfl, rfl, rfl⟩, rfl⟩

theorem Accounted.departs (h : Accounted c σ) (hs : Departs σ σ') : Accounted c σ' := by
  obtain ⟨hstands, hseen⟩ := hs.stands
  rcases h with ⟨e, hmem⟩ | hcancelled | hfinished | hreached
  · refine .inl ⟨e, ?_⟩
    rcases hs.trace with hsame | ⟨e', hsnoc, -⟩
    · exact hsame ▸ hmem
    · rw [hsnoc]
      exact List.mem_append_left _ hmem
  · exact .inr (.inl (hseen ▸ hcancelled))
  · exact .inr (.inr (.inl (hseen ▸ hfinished)))
  · exact .inr (.inr (.inr (hstands.reached.trans hreached)))

theorem Explained.step (h : Explained c σ) (hs : Step c σ σ') : Explained c σ' := by
  refine ⟨h.gated.step hs, h.told_step hs, ?_⟩
  intro hexits
  rcases hs.to_exits hexits with hbefore | hcancelled | hreported | ⟨hvars, hseen, hloops, hwhy⟩
  · exact (h.exits hbefore).departs (hs.departs h.gated hbefore)
  · exact .inr (.inl hcancelled)
  · exact .inl hreported
  · rcases hwhy with hterminal | hreached
    · have hclosed : σ.vars.state.replayPhase = .closed .endOfStream := by
        unfold WatchState.isTerminal at hterminal
        split at hterminal
        · rename_i reason hphase
          rw [hphase, h.told.benign hloops reason hphase]
        · cases hterminal
      exact .inr (.inr (.inl (hseen ▸ h.told.finished hclosed)))
    · exact .inr (.inr (.inr (hvars ▸ hreached)))

end Control

namespace Delivery

variable {c : Config} {σ σ' : State}

theorem Step.start (h : Step c σ σ') : σ'.start = σ.start ∨ c.Resolves σ.store σ'.start := by
  cases h with
  | resolve start hp hresolves => exact .inr hresolves
  | _ => exact .inl rfl

/-- A watch that names its start position starts nowhere else. -/
theorem start_named (h : Steps c σ σ') (hstart : c.start = some start)
    (hσ : σ.start = none ∨ σ.start = some start) : σ'.start = none ∨ σ'.start = some start := by
  refine Lib.star_invariant (P := fun σ => σ.start = none ∨ σ.start = some start) ?_ h hσ
  intro σ σ' hσ hs
  rcases hs.start with hsame | hresolves
  · exact hsame ▸ hσ
  · simp only [Config.Resolves, hstart] at hresolves
    exact .inr hresolves

end Delivery

/-- A request that was accepted does not end at or before its start. -/
theorem fromPublic_ok {req : WatchRequest} (h : WireWatchRequest.fromPublic req = .ok body)
    (hstart : req.start = some (.afterSequence first)) (hend : req.until_ = some (.sequence last)) :
    first < last := by
  unfold WireWatchRequest.fromPublic at h
  rw [hstart, hend] at h
  dsimp only at h
  split at h
  · cases h
  · rename_i hlt
    exact Nat.lt_of_not_le hlt

namespace System

variable {c : Setup} {s : System}

/-- The replay got to its end: a notification at or past it was sent, or it starts at or
past an end the server resolved. -/
def AtEnd (c : Setup) (s : System) : Prop :=
  ∃ last, effectiveOf c.request s.trace = some (.sequence last) ∧
    ((∃ q ∈ sentOf s.trace, last ≤ q) ∨
      (resolvedOf s.trace = some last ∧ ∃ first, s.floor = some first ∧ last ≤ first))

theorem run_ranged {held : Option State.Checkpoint} {inputs : List Input}
    (h : Machine.run (step c) (start held) inputs = some s) (seen : List Sign) :
    Control.Ranged c (s.control seen) := by
  have hsteps := run_control [] h trivial
  have hranged := Lib.star_invariant (P := Control.Ranged c) (fun _ _ hσ => hσ.step) hsteps (.initial c)
  exact ⟨hranged.starting, hranged.start, hranged.resolved, hranged.unbounded, hranged.short,
    hranged.asking, hranged.law⟩

/-- The start position of a replay is the requested one. -/
theorem run_floor {held : Option State.Checkpoint} {inputs : List Input}
    (h : Machine.run (step c) (start held) inputs = some s) (hstart : c.request.start = some from_)
    (hfloor : s.floor = some first) : from_ = .afterSequence first := by
  have hsteps := Machine.run_refines (delivery c) (fun _ _ _ => step_steps) h
  have hnamed := Delivery.start_named hsteps (show c.delivery.start = some from_ from hstart) (.inl rfl)
  unfold floor at hfloor
  rcases hnamed with hnone | hsome
  · rw [show s.vars.initialCursor = none from hnone] at hfloor
    cases hfloor
  · rw [show s.vars.initialCursor = some from_ from hsome] at hfloor
    cases from_ with
    | afterSequence n =>
      cases hfloor
      rfl
    | date d => cases hfloor

theorem reached_atEnd {held : Option State.Checkpoint} {inputs : List Input}
    (hreplays : c.request.Replays) (haccepted : WireWatchRequest.fromPublic c.request = .ok body)
    (h : Machine.run (step c) (start held) inputs = some s) (hreached : s.vars.reached c = true) :
    s.AtEnd c := by
  have hcursors := (run_sound h).cursors
  have huntil := (run_ranged h []).wireUntil
  unfold Supervisor.reached replayReached at hreached
  rw [show s.vars.wireUntil c.request = effectiveOf c.request s.trace from huntil] at hreached
  split at hreached
  · rename_i last hlast
    refine ⟨last, hlast, ?_⟩
    cases hpending : s.vars.pendingCommit with
    | some p =>
      obtain ⟨n, rfl, hdelivered⟩ := hcursors.pending_delivered p hpending
      rw [hpending] at hreached
      exact .inl ⟨n.sequence, hdelivered.sent, by simpa [lastDelivered, Notification.pending] using hreached⟩
    | none =>
      have hcommit : s.vars.commitCursor = s.floor := hcursors.commit_floor hpending
      rw [hpending, hcommit] at hreached
      cases hfloor : s.floor with
      | none =>
        rw [hfloor] at hreached
        cases hreached
      | some first =>
        have hle : last ≤ first := by simpa [lastDelivered, hfloor] using hreached
        refine .inr ⟨?_, first, rfl, hle⟩
        obtain ⟨from_, hfrom⟩ := Option.isSome_iff_exists.mp hreplays.2
        cases run_floor h hfrom hfloor
        obtain ⟨requested, hrequested, heffective⟩ := Option.map_eq_some_iff.mp hlast
        cases hres : resolvedOf s.trace with
        | some e =>
          rw [hres] at heffective
          cases heffective
          rfl
        | none =>
          rw [hres] at heffective
          cases heffective
          exact absurd (fromPublic_ok haccepted hfrom hrequested) (Nat.not_lt.mpr hle)
  · cases hreached

/-- In every run of an accepted replay each request is in range, and a stream that
ends without an error was finished by the server, got to its end, or was cancelled. -/
theorem replay_range (c : Setup) (held : Option State.Checkpoint) (inputs : List Input) (s : System)
    (body : WireWatchRequest) (hreplays : c.request.Replays)
    (haccepted : WireWatchRequest.fromPublic c.request = .ok body)
    (h : Machine.run (step c) (start held) inputs = some s) :
    Always (Ranges c.request.until_.isSome) s.trace ∧
      (s.stage = .done → reportsOf s.trace = [] →
        Control.Finished (signs c (start held) inputs) ∨ s.AtEnd c ∨
          .cancelled ∈ signs c (start held) inputs) := by
  refine ⟨(run_ranged h []).law, ?_⟩
  intro hdone hsilent
  have hsteps := run_control [] h trivial
  have hexplained := Lib.star_invariant (P := Control.Explained c) (fun _ _ hσ => hσ.step) hsteps
    (.initial c)
  have hexits : (s.control ([] ++ signs c (start held) inputs)).phase.exits = true := by
    simp [control, hdone, Stage.control, Control.Phase.exits]
  rcases hexplained.exits hexits with ⟨e, hreported⟩ | hcancelled | hfinished | hreached
  · have hmem : e ∈ reportsOf s.trace := List.mem_filterMap.mpr ⟨_, hreported, rfl⟩
    rw [hsilent] at hmem
    cases hmem
  · exact .inr (.inr hcancelled)
  · exact .inl hfinished
  · exact .inr (.inl (reached_atEnd hreplays haccepted h hreached))

end System

/-- The bytes of a text, and a text of bytes, for ASCII. -/
def asciiBytes (text : String) : List UInt8 := text.toUTF8.data.toList

def asciiText (text : String) : Text := (asciiBytes text).map fun b => Char.ofNat b.toNat

def resolvedStart : String := "\x7b\"type\":\"replay_started\",\"end_sequence\":5\x7d"

/-- The opening of a replay whose end the server resolves, as the JSON library reads it. -/
def resolvedSerde : Serde where
  fromStr data :=
    if data = asciiText resolvedStart then
      some (.object [("type".toList, .string "replay_started".toList),
        ("end_sequence".toList, .number (.posInt 5))])
    else none
  connectionEstablished _ := false
  cloudEvent _ := none
  connectionClosing _ := none
  replayControl _ := none
  errorEvent _ := none

/-- A replay of `mars` after sequence 5 and up to a date. -/
def resolvedSetup : Setup where
  request := ⟨"mars".toList, [], some (.afterSequence 5), some (.date "2026-01-01".toList), .replayOnly,
    [], false⟩
  serde := resolvedSerde
  hasStore := false
  hasAuth := false
  flushCursorOnExit := false
  endpointError := none

/-- The server resolves the end to 5, and the connection drops. -/
def resolvedInputs : List Input :=
  [.proceed, .jitter 0, .response ⟨200, some (asciiText "text/event-stream"), none, none, fun _ => none⟩,
    .chunk (asciiBytes "event:replay-control\ndata:" ++ asciiBytes resolvedStart ++ asciiBytes "\n\n"),
    .proceed, .eof, .proceed, .elapsed true, .jitter 0]

namespace System

theorem resolved_run : ∃ s,
    Machine.run (step resolvedSetup) (start none) resolvedInputs = some s ∧ s.stage = .done ∧
      reportsOf s.trace = [] ∧ sentOf s.trace = [] := by
  have hrun : (Machine.run (step resolvedSetup) (start none) resolvedInputs).map
      (fun s => (s.stage.isDone, reportsOf s.trace, sentOf s.trace)) = some (true, [], []) := by
    decide +kernel
  obtain ⟨s, hs, heq⟩ := Option.map_eq_some_iff.mp hrun
  simp only [Prod.mk.injEq] at heq
  refine ⟨s, hs, ?_, heq.2⟩
  have hdone := heq.1
  unfold Stage.isDone at hdone
  split at hdone
  · assumption
  · cases hdone

/-- A replay that starts where the server puts its end: the stream ends without an
error, nothing was sent, no end of stream was heard and nothing was cancelled. -/
theorem replay_range_empty :
    resolvedSetup.request.Replays ∧
      (WireWatchRequest.fromPublic resolvedSetup.request).toOption.isSome = true ∧
      ∃ s, Machine.run (step resolvedSetup) (start none) resolvedInputs = some s ∧ s.stage = .done ∧
        reportsOf s.trace = [] ∧ sentOf s.trace = [] ∧
        signs resolvedSetup (start none) resolvedInputs = [] := by
  refine ⟨⟨rfl, rfl⟩, rfl, ?_⟩
  obtain ⟨s, hs, hdone, hreports, hsent⟩ := resolved_run
  have hsigns : (signs resolvedSetup (start none) resolvedInputs).length = 0 := by
    decide +kernel
  exact ⟨s, hs, hdone, hreports, hsent, List.eq_nil_of_length_eq_zero hsigns⟩

theorem replay_range_resolved : ∃ s,
    Machine.run (step resolvedSetup) (start none) resolvedInputs = some s ∧ s.AtEnd resolvedSetup := by
  obtain ⟨s, hs, hdone, hreports, -⟩ := resolved_run
  have hsigns : (signs resolvedSetup (start none) resolvedInputs).length = 0 := by
    decide +kernel
  have hnone := List.eq_nil_of_length_eq_zero hsigns
  refine ⟨s, hs, ?_⟩
  rcases (replay_range resolvedSetup none resolvedInputs s _ ⟨rfl, rfl⟩ rfl hs).2 hdone hreports with
    hfinished | hend | hcancelled
  · rw [hnone] at hfinished
    exact absurd hfinished.length_le (by decide)
  · exact hend
  · rw [hnone] at hcancelled
    cases hcancelled

end System
end Aviso.Watch
