import Aviso.Watch.State
import Aviso.Lib.History
import Mathlib.Data.List.Induction

namespace Aviso.Watch.WatchState

open Lib (Always)

/-- How a session is constructed. -/
inductive Start where
  | watch (start : Option ResumeStart)
  | replayOnly (start : ResumeStart)
  deriving DecidableEq, Repr

def Start.mode : Start → WatchMode
  | .watch _ => .watch
  | .replayOnly _ => .replayOnly

def Start.state : Start → WatchState
  | .watch start => WatchState.watch start
  | .replayOnly start => WatchState.replayOnly start

/-- The state after a sequence of events. -/
def Start.after (start : Start) (events : List WatchEvent) : WatchState :=
  events.foldl (fun s e => (s.transition e).2) start.state

section History

/-- The gap an event reports. -/
def gapOf : WatchEvent → Option GapReason
  | .gapDetected reason => some reason
  | _ => none

def Gapless (events : List WatchEvent) : Prop := ∀ reason, .gapDetected reason ∉ events

/-- A replay that is told to be complete, and has no gap. -/
def Replayed (events : List WatchEvent) : Bool :=
  events.contains .replayCompleted && events.all fun e => (gapOf e).isNone

/-- Why an event closes a session in which `seen` came before it, if it does. -/
def closing (mode : WatchMode) (seen : List WatchEvent) : WatchEvent → Option CloseReason
  | .fatal kind => some (.fatal kind)
  | .stop => some .userRequested
  | .authRefreshCompleted false => some (.fatal .authenticationRejectedAfterRefresh)
  | .serverClose .endOfStream => if mode = .replayOnly ∧ Replayed seen = true then some .endOfStream else none
  | _ => none

/-- No event of a history closed the session. -/
def Open (mode : WatchMode) (events : List WatchEvent) : Prop :=
  Always (fun seen e => closing mode seen e = none) events

/-- The last gap of a history. -/
def lastGap (events : List WatchEvent) : Option GapReason := (events.filterMap gapOf).getLast?

/-- The phase an open history leads to. -/
def phaseAfter (start : Start) (events : List WatchEvent) : ReplayPhase :=
  match lastGap events with
  | some reason => .gapDetected reason
  | none =>
    match start, events.contains .replayCompleted with
    | .watch (some start), false => .replaying start false
    | .watch _, _ => .live
    | .replayOnly start, completed => .replaying start completed

/-- What an event makes of the connection. -/
def connection (status : ConnectionStatus) : WatchEvent → ConnectionStatus
  | .connectionEstablished => .connected
  | .connectionLost _ | .heartbeatStarvation | .serverClose _ | .authRefreshCompleted true => .reconnecting
  | .backoffStarted duration => .backoffWait duration
  | .backoffElapsed =>
    match status with
    | .backoffWait _ => .reconnecting
    | _ => status
  | .authRejected => .refreshingAuth
  | _ => status

def statusAfter (events : List WatchEvent) : ConnectionStatus := events.foldl connection .reconnecting

/-- The policy of a reconnect after an event that does not close the session. -/
def policyOf : WatchEvent → Option ReconnectPolicy
  | .connectionLost _ | .heartbeatStarvation => some .exponentialBackoff
  | .serverClose .maxDurationReached | .serverClose .endOfStream => some .immediate
  | .serverClose .serverShutdown => some .shortBackoff
  | _ => none

/-- What an event is answered with after an open history. -/
def outcomeAfter (mode : WatchMode) (seen : List WatchEvent) (e : WatchEvent) : WatchOutcome :=
  match closing mode seen e, policyOf e with
  | some reason, _ => .stop reason
  | none, some policy => .reconnect policy
  | none, none =>
    match e with
    | .authRejected => .refreshAuth
    | .gapDetected reason => .gap reason
    | _ => .continue

end History

section Steps

variable {start : Start} {events : List WatchEvent} {e : WatchEvent}

theorem after_snoc (start : Start) (events : List WatchEvent) (e : WatchEvent) :
    start.after (events ++ [e]) = ((start.after events).transition e).2 := by
  simp [Start.after]

theorem lastGap_snoc (events : List WatchEvent) (e : WatchEvent) :
    lastGap (events ++ [e]) = (gapOf e).or (lastGap events) := by
  rw [lastGap, List.filterMap_append]
  cases h : gapOf e with
  | none => simp [h, lastGap]
  | some reason => simp [h]

theorem statusAfter_snoc (events : List WatchEvent) (e : WatchEvent) :
    statusAfter (events ++ [e]) = connection (statusAfter events) e := by
  simp [statusAfter]

theorem lastGap_none : lastGap events = none ↔ Gapless events := by
  rw [lastGap, List.getLast?_eq_none_iff, List.filterMap_eq_nil_iff]
  constructor
  · intro h reason hmem
    cases h _ hmem
  · intro h e he
    cases e with
    | gapDetected reason => exact absurd he (h reason)
    | _ => rfl

theorem replayed_iff : Replayed events = true ↔ .replayCompleted ∈ events ∧ Gapless events := by
  have hall : (events.all fun e => (gapOf e).isNone) = true ↔ Gapless events := by
    rw [← lastGap_none, lastGap, List.getLast?_eq_none_iff, List.filterMap_eq_nil_iff]
    simp
  rw [Replayed, Bool.and_eq_true, hall, List.contains_iff_mem]

/-- A history without a gap is in the phase its start and a completed replay give it. -/
theorem phaseAfter_gapless (start : Start) (h : lastGap events = none) :
    phaseAfter start events =
      match start, events.contains .replayCompleted with
      | .watch (some start), false => .replaying start false
      | .watch _, _ => .live
      | .replayOnly start, completed => .replaying start completed := by
  simp only [phaseAfter, h]

theorem phaseAfter_gap (start : Start) (h : lastGap events = some reason) :
    phaseAfter start events = .gapDetected reason := by
  simp only [phaseAfter, h]

theorem phaseAfter_open (start : Start) (events : List WatchEvent) (reason : CloseReason) :
    phaseAfter start events ≠ .closed reason := by
  cases hgap : lastGap events with
  | some gap =>
    rw [phaseAfter_gap start hgap]
    simp
  | none =>
    rw [phaseAfter_gapless start hgap]
    split <;> simp

/-- Only a gap and the end of a replay change the phase of an open history. -/
theorem phaseAfter_snoc (start : Start) (hgap : gapOf e = none) (hdone : e ≠ .replayCompleted) :
    phaseAfter start (events ++ [e]) = phaseAfter start events := by
  have hcontains : (events ++ [e]).contains .replayCompleted = events.contains .replayCompleted := by
    simp [hdone.symm]
  simp only [phaseAfter, lastGap_snoc, hgap, Option.none_or, hcontains]

theorem isTerminal_open (start : Start) (events : List WatchEvent) (status : ConnectionStatus) (mode : WatchMode) :
    isTerminal ⟨phaseAfter start events, status, mode⟩ = false := by
  unfold isTerminal
  split
  · rename_i reason hphase
    exact absurd hphase (phaseAfter_open start events reason)
  · rfl

theorem replayed_of_gap (h : lastGap events = some reason) : Replayed events = false := by
  rw [Bool.eq_false_iff]
  intro hreplayed
  have hnone : lastGap events = none := lastGap_none.mpr (replayed_iff.mp hreplayed).2
  rw [hnone] at h
  cases h

theorem replayed_of_gapless (h : lastGap events = none) :
    Replayed events = events.contains .replayCompleted := by
  rw [Bool.eq_iff_iff, replayed_iff, List.contains_iff_mem]
  exact and_iff_left (lastGap_none.mp h)

/-- What the end of a stream does after an open history. -/
theorem endOfStream_after (start : Start) (events : List WatchEvent) (status : ConnectionStatus) :
    (⟨phaseAfter start events, status, start.mode⟩ : WatchState).handleEndOfStream =
      if start.mode = .replayOnly ∧ Replayed events = true then
        (.stop .endOfStream, ⟨.closed .endOfStream, status, start.mode⟩)
      else (.reconnect .immediate, ⟨phaseAfter start events, .reconnecting, start.mode⟩) := by
  cases hgap : lastGap events with
  | some reason =>
    rw [phaseAfter_gap start hgap, replayed_of_gap hgap]
    cases start <;> rfl
  | none =>
    rw [phaseAfter_gapless start hgap, replayed_of_gapless hgap]
    cases start with
    | watch start => rfl
    | replayOnly start =>
      cases events.contains .replayCompleted <;> rfl

/-- What a completed replay does after an open history. -/
theorem replayCompleted_after (start : Start) (events : List WatchEvent) (status : ConnectionStatus) :
    (⟨phaseAfter start events, status, start.mode⟩ : WatchState).handleReplayCompleted =
      (.continue, ⟨phaseAfter start (events ++ [.replayCompleted]), status, start.mode⟩) := by
  have hcontains : (events ++ [WatchEvent.replayCompleted]).contains .replayCompleted = true := by simp
  have hsnoc : lastGap (events ++ [.replayCompleted]) = lastGap events := lastGap_snoc events .replayCompleted
  cases hgap : lastGap events with
  | some reason =>
    rw [phaseAfter_gap start hgap, phaseAfter_gap start (hsnoc.trans hgap)]
    cases start <;> rfl
  | none =>
    rw [phaseAfter_gapless start hgap, phaseAfter_gapless start (hsnoc.trans hgap), hcontains]
    cases start with
    | watch start =>
      cases start <;> cases events.contains .replayCompleted <;> rfl
    | replayOnly start =>
      cases events.contains .replayCompleted <;> rfl

/-- One event after an open history. -/
theorem transition_after (start : Start) (events : List WatchEvent) (e : WatchEvent) :
    transition ⟨phaseAfter start events, statusAfter events, start.mode⟩ e =
      (outcomeAfter start.mode events e,
        match closing start.mode events e with
        | some reason => ⟨.closed reason, statusAfter events, start.mode⟩
        | none => ⟨phaseAfter start (events ++ [e]), statusAfter (events ++ [e]), start.mode⟩) := by
  rw [statusAfter_snoc]
  unfold transition
  rw [isTerminal_open, if_neg Bool.false_ne_true]
  cases e with
  | replayCompleted => exact replayCompleted_after start events _
  | gapDetected reason =>
    have hgap : lastGap (events ++ [.gapDetected reason]) = some reason := lastGap_snoc events _
    rw [phaseAfter_gap start hgap]
    rfl
  | serverClose reason =>
    rw [phaseAfter_snoc start rfl (by simp)]
    cases reason with
    | endOfStream =>
      have hend := endOfStream_after start events (statusAfter events)
      by_cases hcloses : start.mode = .replayOnly ∧ Replayed events = true
      · rw [if_pos hcloses] at hend
        simpa only [handleServerClose, outcomeAfter, closing, if_pos hcloses] using hend
      · rw [if_neg hcloses] at hend
        simpa only [handleServerClose, outcomeAfter, closing, if_neg hcloses, policyOf, connection] using hend
    | maxDurationReached => rfl
    | serverShutdown => rfl
  | authRefreshCompleted success =>
    rw [phaseAfter_snoc start rfl (by simp)]
    cases success <;> rfl
  | backoffElapsed =>
    rw [phaseAfter_snoc start rfl (by simp)]
    cases hstatus : statusAfter events <;> rfl
  | _ =>
    rw [phaseAfter_snoc start rfl (by simp)]
    rfl

end Steps

section Runs

variable {start : Start} {mode : WatchMode} {events : List WatchEvent} {e : WatchEvent}

theorem after_nil (start : Start) : start.after [] = ⟨phaseAfter start [], statusAfter [], start.mode⟩ := by
  cases start with
  | watch start => cases start <;> rfl
  | replayOnly start => rfl

/-- The state an open history leads to. -/
theorem run_open (hopen : Open start.mode events) :
    start.after events = ⟨phaseAfter start events, statusAfter events, start.mode⟩ := by
  induction events using List.reverseRecOn with
  | nil => exact after_nil start
  | append_singleton events e ih =>
    obtain ⟨hbefore, he⟩ := Always.snoc_iff.mp hopen
    rw [after_snoc, ih hbefore, transition_after, he]

theorem closed_stays (reason : CloseReason) (status : ConnectionStatus) (mode : WatchMode) (e : WatchEvent) :
    transition ⟨.closed reason, status, mode⟩ e = (.continue, ⟨.closed reason, status, mode⟩) := rfl

/-- The state from the first closing event on. -/
theorem run_closed (hopen : Open start.mode events) (hcloses : closing start.mode events e = some reason)
    (later : List WatchEvent) :
    start.after (events ++ e :: later) = ⟨.closed reason, statusAfter events, start.mode⟩ := by
  induction later using List.reverseRecOn with
  | nil => rw [after_snoc, run_open hopen, transition_after, hcloses]
  | append_singleton later e' ih =>
    rw [← List.cons_append, ← List.append_assoc, after_snoc, ih, closed_stays]

/-- A history is open, or has a first closing event. -/
theorem open_or_closed (mode : WatchMode) (events : List WatchEvent) :
    Open mode events ∨ ∃ before e later reason, events = before ++ e :: later ∧ Open mode before ∧
      closing mode before e = some reason := by
  induction events using List.reverseRecOn with
  | nil => exact .inl Always.nil
  | append_singleton events e ih =>
    rcases ih with hopen | ⟨before, e', later, reason, rfl, hopen, hcloses⟩
    · cases hcloses : closing mode events e with
      | none => exact .inl (hopen.snoc hcloses)
      | some reason => exact .inr ⟨events, e, [], reason, rfl, hopen, hcloses⟩
    · exact .inr ⟨before, e', later ++ [e], reason, by simp, hopen, hcloses⟩

/-- A session is closed exactly by its first closing event. -/
theorem closed_iff (start : Start) (events : List WatchEvent) (reason : CloseReason) :
    (start.after events).replayPhase = .closed reason ↔
      ∃ before e later, events = before ++ e :: later ∧ Open start.mode before ∧
        closing start.mode before e = some reason := by
  constructor
  · intro hphase
    rcases open_or_closed start.mode events with hopen | ⟨before, e, later, reason', rfl, hopen, hcloses⟩
    · rw [run_open hopen] at hphase
      exact absurd hphase (phaseAfter_open start events reason)
    · rw [run_closed hopen hcloses] at hphase
      cases hphase
      exact ⟨before, e, later, rfl, hopen, hcloses⟩
  · rintro ⟨before, e, later, rfl, hopen, hcloses⟩
    rw [run_closed hopen hcloses]

theorem open_iff (start : Start) (events : List WatchEvent) :
    Open start.mode events ↔ (start.after events).isTerminal = false := by
  constructor
  · intro hopen
    rw [run_open hopen, isTerminal_open]
  · intro hterminal
    rcases open_or_closed start.mode events with hopen | ⟨before, e, later, reason, rfl, hopen, hcloses⟩
    · exact hopen
    · rw [run_closed hopen hcloses] at hterminal
      cases hterminal

/-- An event closes a session with the end of its stream when it is that end, after a complete replay. -/
theorem closing_endOfStream :
    closing mode events e = some .endOfStream ↔
      mode = .replayOnly ∧ e = .serverClose .endOfStream ∧ .replayCompleted ∈ events ∧ Gapless events := by
  constructor
  · intro h
    unfold closing at h
    split at h
    · cases h
    · cases h
    · cases h
    · split at h
      · rename_i hcloses
        exact ⟨hcloses.1, rfl, replayed_iff.mp hcloses.2⟩
      · cases h
    · cases h
  · rintro ⟨rfl, rfl, hreplayed⟩
    exact if_pos ⟨rfl, replayed_iff.mpr hreplayed⟩

theorem phaseAfter_live :
    phaseAfter start events = .live ↔
      start.mode = .watch ∧ Gapless events ∧ (start = .watch none ∨ .replayCompleted ∈ events) := by
  cases hgap : lastGap events with
  | some reason =>
    rw [phaseAfter_gap start hgap, ← lastGap_none, hgap]
    simp
  | none =>
    rw [phaseAfter_gapless start hgap, ← lastGap_none, hgap, ← List.contains_iff_mem]
    cases start with
    | watch start => cases start <;> cases events.contains .replayCompleted <;> simp [Start.mode]
    | replayOnly start => simp [Start.mode]

/-- The answer to an event is a reconnect when the event has a policy and does not close the session. -/
theorem outcomeAfter_reconnect :
    outcomeAfter mode events e = .reconnect policy ↔ closing mode events e = none ∧ policyOf e = some policy := by
  unfold outcomeAfter
  cases closing mode events e with
  | some reason => simp
  | none =>
    cases hpolicy : policyOf e with
    | some policy => simp
    | none => cases e <;> simp

end Runs

/-- What a history says about the state it leads to, and about the answer to the next event. -/
structure Characterised (start : Start) (events : List WatchEvent) : Prop where
  state : Open start.mode events →
    start.after events = ⟨phaseAfter start events, statusAfter events, start.mode⟩
  outcome : Open start.mode events →
    ∀ e, ((start.after events).transition e).1 = outcomeAfter start.mode events e
  settled : ∀ before e later reason, events = before ++ e :: later → Open start.mode before →
    closing start.mode before e = some reason →
    start.after events = ⟨.closed reason, statusAfter before, start.mode⟩ ∧
      ∀ e', (start.after events).transition e' = (.continue, start.after events)
  endOfStream : (start.after events).replayPhase = .closed .endOfStream ↔
    start.mode = .replayOnly ∧ ∃ before later, events = before ++ .serverClose .endOfStream :: later ∧
      Open start.mode before ∧ .replayCompleted ∈ before ∧ Gapless before
  live : (start.after events).replayPhase = .live ↔
    start.mode = .watch ∧ Open start.mode events ∧ Gapless events ∧
      (start = .watch none ∨ .replayCompleted ∈ events)
  gap : ¬ Gapless events →
    (∃ reason, (start.after events).replayPhase = .gapDetected reason) ∨
      ∃ reason, (start.after events).replayPhase = .closed reason
  reconnect : ∀ e policy, ((start.after events).transition e).1 = .reconnect policy ↔
    Open start.mode events ∧ closing start.mode events e = none ∧ policyOf e = some policy

/-- The history of a session determines its state and the answer to its next event. -/
theorem history_characterised (start : Start) (events : List WatchEvent) : Characterised start events where
  state := run_open
  outcome := by
    intro hopen e
    rw [run_open hopen, transition_after]
  settled := by
    intro before e later reason heq hopen hcloses
    subst heq
    rw [run_closed hopen hcloses]
    exact ⟨rfl, closed_stays reason _ _⟩
  endOfStream := by
    rw [closed_iff]
    constructor
    · rintro ⟨before, e, later, rfl, hopen, hcloses⟩
      obtain ⟨hmode, rfl, hreplayed⟩ := closing_endOfStream.mp hcloses
      exact ⟨hmode, before, later, rfl, hopen, hreplayed⟩
    · rintro ⟨hmode, before, later, rfl, hopen, hreplayed⟩
      exact ⟨before, _, later, rfl, hopen, closing_endOfStream.mpr ⟨hmode, rfl, hreplayed⟩⟩
  live := by
    constructor
    · intro hlive
      rcases open_or_closed start.mode events with hopen | ⟨before, e, later, reason, rfl, hopen, hcloses⟩
      · rw [run_open hopen] at hlive
        obtain ⟨hmode, hgapless, hthrough⟩ := phaseAfter_live.mp hlive
        exact ⟨hmode, hopen, hgapless, hthrough⟩
      · rw [run_closed hopen hcloses] at hlive
        cases hlive
    · rintro ⟨hmode, hopen, hgapless, hthrough⟩
      rw [run_open hopen]
      exact phaseAfter_live.mpr ⟨hmode, hgapless, hthrough⟩
  gap := by
    intro hgap
    rcases open_or_closed start.mode events with hopen | ⟨before, e, later, reason, rfl, hopen, hcloses⟩
    · cases hlast : lastGap events with
      | none => exact absurd (lastGap_none.mp hlast) hgap
      | some reason =>
        rw [run_open hopen]
        exact .inl ⟨reason, phaseAfter_gap start hlast⟩
    · rw [run_closed hopen hcloses]
      exact .inr ⟨reason, rfl⟩
  reconnect := by
    intro e policy
    rcases open_or_closed start.mode events with hopen | ⟨before, e', later, reason, rfl, hopen, hcloses⟩
    · rw [run_open hopen, transition_after, outcomeAfter_reconnect]
      exact (and_iff_right hopen).symm
    · have hclosed : ¬ Open start.mode (before ++ e' :: later) := by
        rw [open_iff, run_closed hopen hcloses]
        simp [isTerminal]
      rw [run_closed hopen hcloses, closed_stays]
      constructor
      · rintro ⟨⟩
      · intro h
        exact absurd h.1 hclosed

end Aviso.Watch.WatchState
