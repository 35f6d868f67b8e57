import Aviso.Watch.Control

namespace Aviso.Watch

open Lib (Machine)
open Control (Step Steps)

/-- The phase of the reconnect loop a stage belongs to. -/
def Stage.control : Stage → Control.Phase
  | .resolving => .starting
  | .top => .top
  | .sleeping => .resting
  | .refreshing => .refreshing
  | .authorizing a => .asking a.body
  | .opening _ | .readingBody _ _ _ => .opening
  | .reading conn | .draining conn _ => if conn.confirmed then .streaming else .opening
  | .putting _ _ _ _ | .dispatching _ _ _ _ | .attempting _ _ _ _ _ | .backingOff _ _ _ _ _
  | .sending _ _ _ => .streaming
  | .ended .cancelled => .leaving
  | .ended outcome => .ended outcome
  | .reporting e _ => .reporting e
  | .flushing landed => .flushing landed
  | .startupExpired => .reporting System.startupTimedOut
  | .done => .done

/-- Nothing is left to drain on a connection that is not confirmed, and only a
confirmed one has a notification at hand. -/
def Stage.Tidy : Stage → Prop
  | .draining conn _ => conn.confirmed = false → conn.parser.queue = []
  | .putting conn _ _ _ | .dispatching conn _ _ _ | .attempting conn _ _ _ _ | .backingOff conn _ _ _ _
  | .sending conn _ _ => conn.confirmed = true
  | _ => True

namespace System

/-- The supervisor, seen as its reconnect loop. -/
def control (s : System) (seen : List Sign) : Control.State := ⟨s.stage.control, s.vars, seen, s.trace⟩

/-- The message the next turn of the drain loop handles. -/
def heard (c : Setup) (s : System) : Option Incoming :=
  match s.stage with
  | .draining conn _ =>
    match conn.parser.nextFrame with
    | (some (.message m), _) => some (c.serde.incoming c.request.eventType m)
    | _ => none
  | _ => none

/-- What a step tells the run. -/
def sign (c : Setup) (s : System) : Input → Option Sign
  | .cancelled | .probe true | .channelClosed => some .cancelled
  | .proceed => (s.heard c).map .heard
  | _ => none

/-- What the run has been told after a step. -/
def note (c : Setup) (s : System) (seen : List Sign) (input : Input) : List Sign :=
  match s.sign c input with
  | some sign => seen ++ [sign]
  | none => seen

variable {c : Setup} {s s' : System} {seen : List Sign}

@[simp] theorem control_emit (e : Effect) : (s.emit e).control seen = (s.control seen).emit e := rfl

@[simp] theorem control_goto (stage : Stage) :
    (s.goto stage).control seen = (s.control seen).enter stage.control := rfl

@[simp] theorem control_setVars (v : Supervisor) :
    (s.setVars v).control seen = (s.control seen).set v := rfl

@[simp] theorem control_apply (event : WatchEvent) :
    (s.apply event).control seen = (s.control seen).set (s.vars.transition event) := rfl

/-- A stage of the same phase is the same state of the loop. -/
theorem control_stays {stage : Stage} (h : s.stage.control = stage.control) :
    (s.goto stage).control seen = s.control seen := by
  simp only [control, goto, h]

theorem leave_control : Steps c ((s.control seen).enter .leaving) ((s.leave c).control seen) := by
  unfold leave
  split
  · rename_i hcond
    simp only [Bool.and_eq_true] at hcond
    exact .single (.flush rfl hcond.2)
  · exact .single (.quit rfl)

theorem after_control (next : After) :
    Steps c ((s.control seen).enter .leaving) ((s.after c next).control seen) := by
  cases next with
  | «return» => exact .single (.quit rfl)
  | «break» => exact leave_control
  | stopRequested => exact .refl

/-- An await that observes a cancellation leads to the exit. -/
theorem cancel_control {s₁ : System} (h : s.stage.control.waits = true)
    (hexit : Steps c (((s.control seen).see .cancelled).enter .leaving) (s₁.control (seen ++ [.cancelled]))) :
    Steps c (s.control seen) (s₁.control (seen ++ [.cancelled])) :=
  .head (.cancel h) hexit

theorem connect_control : Steps c ((s.control seen).enter .connecting) ((s.connect c).control seen) := by
  unfold connect
  split
  · exact .single (.miss (.fatal _) rfl trivial)
  · split
    · exact .single (.miss (.fatal _) rfl trivial)
    · rename_i body hbody
      have hask : Step c ((s.control seen).enter .connecting) ((s.control seen).enter (.asking body)) :=
        .ask body rfl hbody
      split
      · exact .single hask
      · exact .tail (.single hask) (.request rfl)

theorem afterBackoff_control :
    Steps c ((s.control seen).enter .checked) ((s.afterBackoff c).control seen) := by
  unfold afterBackoff
  split
  · rename_i hstatus
    split
    · rename_i hauth
      exact .single (.refresh rfl hstatus hauth)
    · rename_i hauth
      exact .single (.unprovided _ rfl hstatus (Bool.eq_false_of_not_eq_true hauth))
  · rename_i hstatus
    exact .head (.proceed rfl hstatus) connect_control

theorem stepTop_control (h : s.stage.control = .top) (jitter : Nat) :
    Steps c (s.control seen) ((s.stepTop c jitter).control seen) := by
  unfold stepTop
  split
  · rename_i hterminal
    exact .head (.finish h (.inl hterminal)) leave_control
  · rename_i hterminal
    have hterminal := Bool.eq_false_of_not_eq_true hterminal
    split
    · rename_i hreached
      exact .head (.finish h (.inr hreached)) leave_control
    · rename_i hreached
      have hreached : s.vars.reached c = false := Bool.eq_false_of_not_eq_true hreached
      split
      · rename_i hpolicy
        exact .head (.skip h hterminal hreached hpolicy) afterBackoff_control
      · rename_i policy hpolicy
        dsimp only
        split
        · rename_i hzero
          refine .head (.hurry jitter policy h hterminal hreached hpolicy hzero) ?_
          have hnext := @afterBackoff_control c
            ((s.setVars s.vars.settled).emit (.backedOff (s.vars.delay jitter policy))) seen
          rw [show s.vars.delay jitter policy = 0 from hzero] at hnext
          have hdelay : s.vars.retryAfterOverride.getD
            (computeBackoff jitter (backoffOf s.vars policy).1 (backoffOf s.vars policy).2) = 0 := hzero
          rw [hdelay]
          exact hnext
        · rename_i hdelay
          exact .single (.rest jitter policy h hterminal hreached hpolicy hdelay)

theorem resolved_control (h : s.stage.control = .starting) (cursor : Option ResumeStart) :
    Steps c (s.control seen) ((s.resolved c cursor).control seen) := by
  have hresolve (state : WatchState) (hstate : WatchState.from c.request.mode cursor = some state) :
      Step c (s.control seen) (((s.control seen).set (.start state cursor)).enter .top) :=
    .resolve cursor state h hstate
  unfold resolved
  split
  · rename_i hmode
    exact .single (hresolve _ (by rw [hmode]; rfl))
  · rename_i hmode
    exact .single (hresolve _ (by rw [hmode]; rfl))
  · exact .single (.refuse _ h)

theorem note_proceed (h : s.heard c = none) : s.note c seen .proceed = seen := by
  simp [note, sign, h]

theorem stepResolving_control (h : s.stage = .resolving) (hs : s.stepResolving c input = some s') :
    Steps c (s.control seen) (s'.control (s.note c seen input)) := by
  have hphase : s.stage.control = .starting := congrArg Stage.control h
  unfold stepResolving at hs
  split at hs
  · rw [note_proceed (by simp [heard, h])]
    split at hs
    · cases hs
      exact resolved_control hphase _
    · split at hs
      · cases hs
      · cases hs
        exact resolved_control hphase _
  · split at hs
    · cases hs
      exact cancel_control (by rw [hphase]; rfl) (.single (.quit rfl))
    · cases hs
  · split at hs
    · cases hs
      exact .head (.fetch s.store hphase) (resolved_control (s := s.emit (.fetched s.store)) hphase _)
    · cases hs
  · split at hs
    · cases hs
      exact .single (.refuse _ hphase)
    · cases hs
  · cases hs

theorem stepSleeping_control (h : s.stage = .sleeping) (hs : s.stepSleeping c input = some s') :
    Steps c (s.control seen) (s'.control (s.note c seen input)) := by
  have hphase : s.stage.control = .resting := congrArg Stage.control h
  unfold stepSleeping at hs
  split at hs
  · cases hs
    exact cancel_control (by rw [hphase]; rfl) leave_control
  · cases hs
    exact .head (.wake hphase) (afterBackoff_control (s := s.apply .backoffElapsed))
  · cases hs

theorem stepRefreshing_control (h : s.stage = .refreshing) (hs : s.stepRefreshing c input = some s') :
    Steps c (s.control seen) (s'.control (s.note c seen input)) := by
  have hphase : s.stage.control = .refreshing := congrArg Stage.control h
  unfold stepRefreshing at hs
  split at hs
  · cases hs
    exact cancel_control (by rw [hphase]; rfl) leave_control
  · cases hs
    exact .head (.refreshed hphase)
      (connect_control (s := (s.setVars { s.vars with refreshedForCurrentAttempt := true }).apply
        (.authRefreshCompleted true)))
  · cases hs
    exact .single (.refreshFailed _ hphase)
  · cases hs

theorem stepAuthorizing_control (h : s.stage = .authorizing a) (hs : s.stepAuthorizing a input = some s') :
    Steps c (s.control seen) (s'.control (s.note c seen input)) := by
  have hphase : s.stage.control = .asking a.body := congrArg Stage.control h
  have hconnects : s.stage.control.connects = true := by
    rw [hphase]
    rfl
  unfold stepAuthorizing at hs
  split at hs
  · cases hs
    exact cancel_control (by rw [hphase]; rfl) .refl
  · cases hs
    exact .single (.request hphase)
  · cases hs
    exact .single (.miss (.fatal _) hconnects trivial)
  · cases hs

theorem openingExpired_misses (v : Supervisor) (e : ClientError) : Control.Misses (openingExpired v e) := by
  unfold openingExpired
  split <;> trivial

/-- A connection may end at any time in an outcome that leaves the reducer as it was. -/
theorem close_control (h : s.stage.control.connects = true) (hmiss : Control.Misses outcome) :
    Steps c (s.control seen) ((s.close outcome).control seen) := by
  have hstep : Step c (s.control seen) ((s.control seen).enter (.ended outcome)) :=
    .miss outcome h hmiss
  cases outcome with
  | cancelled => cases hmiss
  | transportError => exact .single hstep
  | openingTimedOut e => exact .single hstep
  | fatal e => exact .single hstep
  | serverClosed => cases hmiss
  | httpStatus status body requestId retryAfter => cases hmiss
  | unexpectedEof => cases hmiss
  | heartbeatStarved => cases hmiss

theorem stepOpening_control (h : s.stage = .opening a) (hs : s.stepOpening c a input = some s') :
    Steps c (s.control seen) (s'.control (s.note c seen input)) := by
  have hphase : s.stage.control = .opening := congrArg Stage.control h
  have hconnects : s.stage.control.connects = true := by
    rw [hphase]
    rfl
  unfold stepOpening at hs
  split at hs
  · cases hs
    exact cancel_control (by rw [hphase]; rfl) .refl
  · cases hs
    exact close_control hconnects (openingExpired_misses _ _)
  · cases hs
    exact close_control hconnects trivial
  · split at hs
    · cases hs
      rw [control_stays (by exact hphase)]
      exact .refl
    · split at hs
      · cases hs
        rw [control_stays (by exact hphase)]
        exact .refl
      · cases hs
        exact close_control hconnects trivial
  · cases hs

theorem stepReadingBody_control (h : s.stage = .readingBody status requestId retryAfter)
    (hs : s.stepReadingBody status requestId retryAfter input = some s') :
    Steps c (s.control seen) (s'.control (s.note c seen input)) := by
  have hphase : s.stage.control = .opening := congrArg Stage.control h
  have hconnects : s.stage.control.connects = true := by
    rw [hphase]
    rfl
  unfold stepReadingBody at hs
  split at hs
  · cases hs
    exact cancel_control (by rw [hphase]; rfl) .refl
  · cases hs
    exact .single (.answer _ _ _ _ hphase)
  · cases hs
    exact close_control hconnects trivial
  · cases hs
    exact .single (.answer _ _ _ _ hphase)
  · cases hs

/-- The phase of a connection that is being read. -/
def readingPhase (conn : Connection) : Control.Phase := if conn.confirmed then .streaming else .opening

theorem readingPhase_cases (conn : Connection) :
    readingPhase conn = .opening ∨ readingPhase conn = .streaming := by
  unfold readingPhase
  split
  · exact .inr rfl
  · exact .inl rfl

theorem readingPhase_connects (conn : Connection) : (readingPhase conn).connects = true := by
  rcases readingPhase_cases conn with h | h
  · rw [h]
    rfl
  · rw [h]
    rfl

theorem readingPhase_waits (conn : Connection) : (readingPhase conn).waits = true := by
  rcases readingPhase_cases conn with h | h
  · rw [h]
    rfl
  · rw [h]
    rfl

/-- A connection ends in an outcome that comes with an event. -/
theorem drop_control (h : s.stage.control = readingPhase conn) (hdrop : Control.Drops event outcome) :
    Steps c (s.control seen) (((s.apply event).close outcome).control seen) := by
  have hstep : Step c (s.control seen)
      (((s.control seen).set (s.vars.transition event)).enter (.ended outcome)) :=
    .drop (by rw [show (s.control seen).phase = _ from h]; exact readingPhase_cases conn) hdrop
  cases hdrop with
  | starved => exact .single hstep
  | eof => exact .single hstep
  | fatal kind e => exact .single hstep

theorem receive_control (h : s.stage.control = readingPhase conn) (chunk : Chunk) :
    Steps c (s.control seen) ((s.receive c conn chunk).control seen) := by
  unfold receive
  split
  · rw [control_stays (by exact h)]
  · rename_i hconfirmed
    have hopening : s.stage.control = .opening := by
      rw [h, readingPhase, if_neg hconfirmed]
    split
    · exact close_control (by rw [hopening]; rfl) trivial
    · rename_i opening queue hgate
      exact .single (.confirm opening hopening)
    · dsimp only
      split
      · rw [control_stays (by exact h)]
      · rw [control_stays (by exact h)]

theorem stepReading_control (h : s.stage = .reading conn) (hs : s.stepReading c conn input = some s') :
    Steps c (s.control seen) (s'.control (s.note c seen input)) := by
  have hphase : s.stage.control = readingPhase conn := congrArg Stage.control h
  have hconnects : s.stage.control.connects = true := hphase ▸ readingPhase_connects conn
  unfold stepReading at hs
  split at hs
  · cases hs
    exact .single (.stop (by rw [show (s.control seen).phase = _ from hphase]; exact readingPhase_cases conn))
  · split at hs
    · cases hs
    · cases hs
      exact close_control hconnects (openingExpired_misses _ _)
  · cases hs
    exact drop_control hphase .starved
  · cases hs
    exact close_control hconnects trivial
  · cases hs
    exact receive_control (by exact hphase) _
  · cases hs
    exact receive_control (by exact hphase) _
  · cases hs

theorem finishChunk_control (h : s.stage.control = readingPhase conn) (chunk : Chunk)
    (serverClosed : Bool) :
    Steps c (s.control seen) ((s.finishChunk conn chunk serverClosed).control seen) := by
  have hclose : Steps c (s.control seen) ((s.close .serverClosed).control seen) :=
    .single (.close (by rw [show (s.control seen).phase = _ from h]; exact readingPhase_cases conn))
  unfold finishChunk
  split
  · exact drop_control h (.fatal _ _)
  · split
    · exact hclose
    · split
      · exact hclose
      · split
        · exact drop_control h .eof
        · rw [control_stays (by exact h)]

theorem nextTrigger_control (h : s.stage.control = .streaming) :
    Steps c (s.control seen) ((s.nextTrigger c conn chunk n i).control seen) := by
  unfold nextTrigger
  split
  · rw [control_stays h]
  · rw [control_stays h]

theorem handle_control (h : s.stage.control = .streaming) (hhandles : Control.Handles e) :
    Step c (s.control seen) ((s.emit e).control seen) :=
  .handle e h hhandles

theorem beginDispatch_control (h : s.stage.control = .streaming) :
    Steps c (s.control seen) ((s.beginDispatch c conn chunk n).control seen) :=
  .head (.handle (.dispatched n) h trivial) (nextTrigger_control (s := s.emit (.dispatched n)) h)

theorem receiveNotification_control (h : s.stage.control = .streaming) :
    Steps c ((s.apply (.notificationReceived n.sequence)).control seen)
      ((s.receiveNotification c conn chunk n).control seen) := by
  unfold receiveNotification
  dsimp only
  generalize hmid : s.apply (.notificationReceived n.sequence) = mid
  have hphase : mid.stage.control = .streaming := by
    rw [← hmid]
    exact h
  refine .head (handle_control hphase (e := .received n) trivial) ?_
  split
  · exact .single (.gap _ hphase)
  · split
    · rename_i prev hprev
      split
      · rw [control_stays (by exact hphase)]
      · refine .head (.commit prev hphase hprev) ?_
        exact beginDispatch_control
          (s := (mid.emit (.received n)).setVars { mid.vars with commitCursor := some prev.sequence }) hphase
    · exact beginDispatch_control (s := mid.emit (.received n)) hphase

theorem receiveMessage_control (h : s.stage.control = .streaming) (hconn : conn.confirmed = true) :
    Steps c (s.control seen)
      ((s.receiveMessage c conn chunk m).control
        (seen ++ [.heard (c.serde.incoming c.request.eventType m)])) := by
  have hreading : s.stage.control = readingPhase conn := h.trans (if_pos hconn).symm
  have hconnects : s.stage.control.connects = true := by
    rw [h]
    rfl
  unfold receiveMessage
  dsimp only
  generalize c.serde.incoming c.request.eventType m = incoming
  have hhear : Step c (s.control seen)
      ((s.setVars (s.vars.hear incoming)).control (seen ++ [.heard incoming])) := .hear _ h
  have hstay (v : Supervisor) (hv : v = s.vars.hear incoming) : Steps c (s.control seen)
      (((s.goto (.draining conn chunk)).setVars v).control (seen ++ [.heard incoming])) := by
    subst hv
    have hsame : ((s.goto (.draining conn chunk)).setVars (s.vars.hear incoming)).control
        (seen ++ [.heard incoming]) =
        (s.setVars (s.vars.hear incoming)).control (seen ++ [.heard incoming]) :=
      control_stays (s := s.setVars (s.vars.hear incoming)) hreading
    rw [hsame]
    exact .single hhear
  cases incoming with
  | established => exact hstay _ rfl
  | notification n => exact .head hhear (receiveNotification_control h)
  | malformed e => exact .head hhear (drop_control hreading (.fatal _ _))
  | undecodable => exact .head hhear (close_control (s := s) hconnects trivial)
  | heartbeat => exact hstay _ rfl
  | replayCompleted => exact hstay _ rfl
  | replayLimit maxAllowed => exact .tail (.single hhear) (.gap _ h)
  | replayLimitUnnamed => exact .head hhear (drop_control hreading (.fatal _ _))
  | closing reason =>
    exact .head hhear (finishChunk_control (s := s.apply (.serverClose reason)) hreading chunk true)
  | closingUnknown reason requestId => exact .head hhear (drop_control hreading (.fatal _ _))
  | serverError message requestId => exact .head hhear (drop_control hreading (.fatal _ _))
  | ignored => exact hstay _ rfl

/-- Only a confirmed connection has a frame to drain. -/
theorem tidy_confirmed (htidy : (Stage.draining conn chunk).Tidy)
    (hnext : conn.parser.nextFrame = (some frame, parser)) : conn.confirmed = true := by
  by_contra hnot
  have hqueue : conn.parser.queue = [] := htidy (Bool.eq_false_of_not_eq_true hnot)
  simp [Finesse.Parser.nextFrame, hqueue] at hnext

theorem stepDraining_control (h : s.stage = .draining conn chunk) (htidy : s.stage.Tidy) :
    Steps c (s.control seen) ((s.stepDraining c conn chunk).control (s.note c seen .proceed)) := by
  have hphase : s.stage.control = readingPhase conn := congrArg Stage.control h
  unfold stepDraining
  split
  · rename_i parser hnext
    rw [note_proceed (by simp [heard, h, hnext])]
    exact finishChunk_control (by exact hphase) chunk false
  · rename_i parser hnext
    rw [note_proceed (by simp [heard, h, hnext]), control_stays (by exact hphase)]
  · rename_i m parser hnext
    have hconn := tidy_confirmed (h ▸ htidy) hnext
    have hstreaming : s.stage.control = .streaming := by
      rw [hphase, readingPhase, if_pos hconn]
    have hnote : s.note c seen .proceed =
        seen ++ [.heard (c.serde.incoming c.request.eventType m)] := by
      simp [note, sign, heard, h, hnext]
    rw [hnote]
    exact receiveMessage_control hstreaming hconn

theorem stepPutting_control (h : s.stage = .putting conn chunk n landed)
    (hp : s.vars.pendingCommit = some prev)
    (hs : s.stepPutting c conn chunk n landed prev input = some s') :
    Steps c (s.control seen) (s'.control (s.note c seen input)) := by
  have hphase : s.stage.control = .streaming := congrArg Stage.control h
  unfold stepPutting at hs
  split at hs
  · split at hs
    · cases hs
    · cases hs
      rw [control_stays (by exact hphase)]
      exact .single (.handle (.landed _) hphase trivial)
  · split at hs
    · cases hs
      refine .head (.handle (.put prev.checkpoint true) hphase trivial) (.head (.commit prev hphase hp) ?_)
      exact beginDispatch_control (s := (s.emit (.put prev.checkpoint true)).setVars
        { s.vars with commitCursor := some prev.sequence }) hphase
    · cases hs
  · cases hs
    exact .head (.handle (.put _ false) hphase trivial)
      (close_control (s := s.emit (.put prev.checkpoint false))
        (by rw [show (s.emit _).stage.control = _ from hphase]; rfl) trivial)
  · cases hs

theorem stepDispatching_control (h : s.stage = .dispatching conn chunk n i)
    (hs : s.stepDispatching conn chunk n i input = some s') :
    Steps c (s.control seen) (s'.control (s.note c seen input)) := by
  have hphase : s.stage.control = .streaming := congrArg Stage.control h
  unfold stepDispatching at hs
  split at hs
  · cases hs
    exact cancel_control (by rw [hphase]; rfl) .refl
  · cases hs
    rw [control_stays (by exact hphase)]
    exact .refl
  · cases hs

theorem stepAttempting_control (h : s.stage = .attempting conn chunk n i attempt)
    (hs : s.stepAttempting c conn chunk n i attempt result = some s') :
    Steps c (s.control seen) (s'.control (s.note c seen (.attempt result))) := by
  have hphase : s.stage.control = .streaming := congrArg Stage.control h
  unfold stepAttempting at hs
  obtain ⟨trigger, -, rfl⟩ := Option.map_eq_some_iff.mp hs
  have hattempt : Step c (s.control seen) ((s.emit (.attempted i result)).control seen) :=
    handle_control hphase trivial
  have hnext : Steps c (s.control seen)
      (((s.emit (.attempted i result)).nextTrigger c conn chunk n (i + 1)).control seen) :=
    .head hattempt (nextTrigger_control (s := s.emit (.attempted i result)) hphase)
  dsimp only
  split
  · exact hnext
  · split
    · split
      · exact .tail (.single hattempt) (.fail _ hphase)
      · exact hnext
    · rw [control_stays (by exact hphase)]
      exact .single hattempt

theorem stepBackingOff_control (h : s.stage = .backingOff conn chunk n i attempt)
    (hs : s.stepBackingOff conn chunk n i attempt input = some s') :
    Steps c (s.control seen) (s'.control (s.note c seen input)) := by
  have hphase : s.stage.control = .streaming := congrArg Stage.control h
  unfold stepBackingOff at hs
  split at hs
  · cases hs
    exact cancel_control (by rw [hphase]; rfl) .refl
  · cases hs
    rw [control_stays (by exact hphase)]
    exact .refl
  · cases hs

theorem accept_control (seen : List Sign) (h : s.accept c item = some s') :
    s'.stage = s.stage ∧ s'.vars = s.vars ∧ s'.control seen = s.control seen := by
  unfold accept at h
  split at h
  · cases h
    exact ⟨rfl, rfl, rfl⟩
  · cases h

theorem stepSending_control (h : s.stage = .sending conn chunk n) (htidy : s.stage.Tidy)
    (hs : s.stepSending c conn chunk n input = some s') :
    Steps c (s.control seen) (s'.control (s.note c seen input)) := by
  have hphase : s.stage.control = .streaming := congrArg Stage.control h
  have hconn : conn.confirmed = true := by
    rw [h] at htidy
    exact htidy
  unfold stepSending at hs
  split at hs
  · cases hs
    exact cancel_control (by rw [hphase]; rfl) .refl
  · split at hs
    · cases hs
      exact cancel_control (by rw [hphase]; rfl) .refl
    · cases hs
  · obtain ⟨mid, hmid, rfl⟩ := Option.map_eq_some_iff.mp hs
    obtain ⟨hstage, hvars, hsame⟩ := accept_control seen hmid
    have hreading : mid.stage.control = readingPhase conn := by
      rw [hstage, hphase, readingPhase, if_pos hconn]
    have hgoto := @control_stays ((mid.emit (.sent n)).setVars (mid.vars.delivered n)) seen
      (.draining conn chunk) hreading
    have hdeliver : Step c (mid.control seen)
        (((mid.emit (.sent n)).setVars (mid.vars.delivered n)).control seen) :=
      .deliver n (by rw [show (mid.control seen).phase = _ from hreading, readingPhase, if_pos hconn])
    rw [← hsame]
    exact .single (hgoto ▸ hdeliver)
  · cases hs

theorem stepReporting_control (h : s.stage = .reporting e next)
    (hs : s.stepReporting c e next input = some s') :
    Steps c (s.control seen) (s'.control (s.note c seen input)) := by
  have hphase : s.stage.control = .reporting e := congrArg Stage.control h
  have hwaits : s.stage.control.waits = true := by
    rw [hphase]
    rfl
  unfold stepReporting at hs
  split at hs
  · cases hs
    exact cancel_control hwaits (after_control next)
  · split at hs
    · cases hs
      exact cancel_control hwaits (after_control next)
    · cases hs
  · obtain ⟨mid, hmid, rfl⟩ := Option.map_eq_some_iff.mp hs
    obtain ⟨hstage, -, hsame⟩ := accept_control seen hmid
    have hmid : mid.stage.control = .reporting e := by
      rw [hstage, hphase]
    rw [← hsame]
    exact .head (.report hmid) (after_control (s := mid.emit (.reported e)) next)
  · cases hs

theorem stepFlushing_control (h : s.stage = .flushing landed)
    (hs : s.stepFlushing landed pending input = some s') :
    Steps c (s.control seen) (s'.control (s.note c seen input)) := by
  have hphase : s.stage.control = .flushing landed := congrArg Stage.control h
  unfold stepFlushing at hs
  split at hs
  · split at hs
    · cases hs
    · rename_i hlanded
      cases hs
      rw [Bool.eq_false_of_not_eq_true hlanded] at hphase
      exact .single (.land _ hphase)
  · split at hs
    · cases hs
      exact .single (.flushed _ true hphase)
    · cases hs
  · cases hs
    exact .single (.flushed _ false hphase)
  · cases hs

theorem stepStartupExpired_control (h : s.stage = .startupExpired)
    (hs : s.stepStartupExpired c input = some s') :
    Steps c (s.control seen) (s'.control (s.note c seen input)) := by
  have hphase : s.stage.control = .reporting startupTimedOut := congrArg Stage.control h
  unfold stepStartupExpired at hs
  split at hs
  · obtain ⟨mid, hmid, rfl⟩ := Option.map_eq_some_iff.mp hs
    obtain ⟨hstage, -, hsame⟩ := accept_control seen hmid
    have hmid : mid.stage.control = .reporting startupTimedOut := by
      rw [hstage, hphase]
    rw [← hsame]
    exact .tail (.single (.report hmid)) (.quit rfl)
  · split at hs
    · cases hs
      exact cancel_control (by rw [hphase]; rfl) (.single (.quit rfl))
    · cases hs
  · cases hs

theorem classifyStatus_control {σ : Control.State} {v : Supervisor}
    (h : ∀ v' phase, Control.Judged c v (.httpStatus status body requestId retryAfter) v' phase →
      Step c σ ((((s.setVars v).control seen).set v').enter phase)) :
    Steps c σ (((s.setVars v).classifyStatus c status body requestId retryAfter).control seen) := by
  unfold classifyStatus
  split
  · rename_i hstatus
    subst hstatus
    split
    · rename_i hauth
      simp only [Bool.and_eq_true, Bool.not_eq_true'] at hauth
      exact .single (h _ _ (.rejected hauth.1 hauth.2))
    · rename_i hauth
      split
      · rename_i hrefreshed
        exact .single (h _ _ (.refused hrefreshed))
      · rename_i hrefreshed
        have hrefreshed : v.refreshedForCurrentAttempt = false := Bool.eq_false_of_not_eq_true hrefreshed
        have hauth : c.hasAuth = false := by
          cases hc : c.hasAuth with
          | false => rfl
          | true => exact absurd (by simp [hc, hrefreshed, setVars]) hauth
        exact .single (h _ _ (.denied _ fun _ => ⟨hauth, hrefreshed⟩))
  · rename_i hstatus
    split
    · rename_i hbusy
      exact .single (h _ _ (.busy hbusy))
    · rename_i hbusy
      split
      · rename_i hserver
        exact .single (h _ _ (.failed hserver.1 hserver.2 fun h503 => hbusy (.inr h503)))
      · exact .single (h _ _ (.denied _ fun h401 => absurd h401 hstatus))

theorem stepEnded_control (h : s.stage = .ended outcome) (short : Bool) :
    Steps c (s.control seen) ((s.stepEnded c outcome short).control seen) := by
  unfold stepEnded
  dsimp only
  generalize (if short = true then saturatingSucc32 s.vars.shortSessions else 0) = shortSessions
  have hjudge (hcancelled : outcome ≠ .cancelled) (v : Supervisor) (phase : Control.Phase)
      (hjudged : Control.Judged c { s.vars with shortSessions := shortSessions } outcome v phase) :
      Step c (s.control seen) ((((s.emit (.ended outcome short)).control seen).set v).enter phase) := by
    refine .judge short shortSessions ?_ hjudged
    have hphase : (s.control seen).phase = (Stage.ended outcome).control := congrArg Stage.control h
    cases outcome with
    | cancelled => exact absurd rfl hcancelled
    | _ => exact hphase
  cases outcome with
  | cancelled =>
    have hphase : s.stage.control = .leaving := congrArg Stage.control h
    refine .head (.part short shortSessions hphase) ?_
    have hleave := @leave_control c
      ((s.setVars { s.vars with shortSessions := shortSessions }).emit (.ended .cancelled short)) seen
    have hsame : (((s.setVars { s.vars with shortSessions := shortSessions }).emit
        (.ended .cancelled short)).control seen).enter .leaving =
        ((s.control seen).emit (.ended .cancelled short)).set
          { s.vars with shortSessions := shortSessions } := by
      simp only [Control.State.enter, Control.State.emit, Control.State.set, control, setVars, emit, hphase]
    exact hsame ▸ hleave
  | serverClosed => exact .single (hjudge nofun _ _ .again)
  | httpStatus status body requestId retryAfter =>
    exact classifyStatus_control (s := s.emit (.ended (.httpStatus status body requestId retryAfter) short))
      (hjudge nofun)
  | transportError => exact .single (hjudge nofun _ _ .missed)
  | unexpectedEof => exact .single (hjudge nofun _ _ .eof)
  | heartbeatStarved => exact .single (hjudge nofun _ _ .starved)
  | openingTimedOut e => exact .single (hjudge nofun _ _ (.late e))
  | fatal e => exact .single (hjudge nofun _ _ (.fatal e))

theorem stepStage_control (htidy : s.stage.Tidy) (hs : s.stepStage c input = some s') :
    Steps c (s.control seen) (s'.control (s.note c seen input)) := by
  unfold stepStage at hs
  split at hs
  all_goals rename_i h
  · exact stepResolving_control h hs
  · split at hs
    · cases hs
      exact stepTop_control (congrArg Stage.control h) _
    · cases hs
  · exact stepSleeping_control h hs
  · exact stepRefreshing_control h hs
  · exact stepAuthorizing_control h hs
  · exact stepOpening_control h hs
  · exact stepReadingBody_control h hs
  · exact stepReading_control h hs
  · split at hs
    · cases hs
      exact stepDraining_control h htidy
    · cases hs
  · obtain ⟨prev, hprev, hs⟩ := Option.bind_eq_some_iff.mp hs
    exact stepPutting_control h hprev hs
  · exact stepDispatching_control h hs
  · split at hs
    · exact stepAttempting_control h hs
    · cases hs
  · exact stepBackingOff_control h hs
  · exact stepSending_control h htidy hs
  · split at hs
    · cases hs
      exact stepEnded_control h _
    · cases hs
  · exact stepReporting_control h hs
  · obtain ⟨pending, -, hs⟩ := Option.bind_eq_some_iff.mp hs
    exact stepFlushing_control h hs
  · exact stepStartupExpired_control h hs
  · cases hs

/-- A stage that waits is a phase that does, or the exit flush. -/
theorem awaits_control {stage : Stage} (h : stage.awaits = true) :
    (stage.control.waits = true ∧ ∀ e, stage.control ≠ .reporting e) ∨
      ∃ landed, stage.control = .flushing landed := by
  cases stage with
  | reading conn =>
    refine .inl ⟨readingPhase_waits conn, ?_⟩
    intro e heq
    rcases readingPhase_cases conn with hp | hp
    · exact absurd (hp.symm.trans heq) nofun
    · exact absurd (hp.symm.trans heq) nofun
  | flushing landed => exact .inr ⟨landed, rfl⟩
  | top => cases h
  | draining conn chunk => cases h
  | dispatching conn chunk n i => cases h
  | ended outcome => cases h
  | reporting e next => cases h
  | startupExpired => cases h
  | done => cases h
  | _ => exact .inl ⟨rfl, nofun⟩

/-- Every step of the system is a sequence of steps of its reconnect loop. -/
theorem step_control (htidy : s.stage.Tidy) (hs : step c s input = some s') :
    Steps c (s.control seen) (s'.control (s.note c seen input)) := by
  unfold step at hs
  split at hs
  · split at hs
    · rename_i hstarting
      cases hs
      simp only [starting, Bool.and_eq_true, Bool.not_eq_true'] at hstarting
      exact .single (.expire hstarting.1.1 hstarting.1.2 (awaits_control hstarting.2))
    · cases hs
  · split at hs
    · cases hs
    · cases hs
      exact .refl
  · cases hs
    exact .refl
  · exact stepStage_control htidy hs

/-! ### Tidiness -/

theorem confirmed_queue (h : Opening.confirmed serde historical queue = (.ok none, rest)) : rest = [] := by
  induction queue with
  | nil =>
    cases h
    rfl
  | cons frame queue ih =>
    cases frame with
    | retry ms => exact ih h
    | message m =>
      unfold Opening.confirmed at h
      split at h
      · cases h
      · cases h
      · exact ih h

theorem tidy_leave : (s.leave c).stage.Tidy := by
  unfold leave
  split <;> trivial

theorem tidy_after (next : After) : (s.after c next).stage.Tidy := by
  cases next with
  | «return» => trivial
  | «break» => exact tidy_leave
  | stopRequested => trivial

theorem tidy_connect : (s.connect c).stage.Tidy := by
  unfold connect
  repeat' split
  all_goals trivial

theorem tidy_afterBackoff : (s.afterBackoff c).stage.Tidy := by
  unfold afterBackoff
  split
  · split <;> trivial
  · exact tidy_connect

theorem tidy_stepTop (jitter : Nat) : (s.stepTop c jitter).stage.Tidy := by
  unfold stepTop
  dsimp only
  repeat' split
  · exact tidy_leave
  · exact tidy_leave
  · exact tidy_afterBackoff
  · exact tidy_afterBackoff
  · trivial

theorem tidy_resolved (cursor : Option ResumeStart) : (s.resolved c cursor).stage.Tidy := by
  unfold resolved
  split <;> trivial

theorem tidy_receive (conn : Connection) (chunk : Chunk) : (s.receive c conn chunk).stage.Tidy := by
  unfold receive
  split
  · rename_i hconfirmed
    intro hnot
    exact absurd hconfirmed (Bool.eq_false_iff.mp hnot)
  · split
    · trivial
    · intro hnot
      cases hnot
    · rename_i queue hgate
      dsimp only
      split
      · trivial
      · intro _
        exact confirmed_queue hgate

theorem tidy_finishChunk (conn : Connection) (chunk : Chunk) (serverClosed : Bool) :
    (s.finishChunk conn chunk serverClosed).stage.Tidy := by
  unfold finishChunk
  repeat' split
  all_goals trivial

theorem tidy_nextTrigger (h : conn.confirmed = true) :
    (s.nextTrigger c conn chunk n i).stage.Tidy := by
  unfold nextTrigger
  split
  · exact h
  · exact h

theorem tidy_receiveNotification (h : conn.confirmed = true) :
    (s.receiveNotification c conn chunk n).stage.Tidy := by
  unfold receiveNotification
  dsimp only
  split
  · trivial
  · split
    · split
      · exact h
      · exact tidy_nextTrigger h
    · exact tidy_nextTrigger h

theorem tidy_receiveMessage (h : conn.confirmed = true) :
    (s.receiveMessage c conn chunk m).stage.Tidy := by
  have hdraining : (Stage.draining conn chunk).Tidy := fun hnot => absurd h (Bool.eq_false_iff.mp hnot)
  unfold receiveMessage
  dsimp only
  split
  · exact hdraining
  · exact tidy_receiveNotification h
  · trivial
  · trivial
  · exact hdraining
  · exact hdraining
  · trivial
  · trivial
  · exact tidy_finishChunk conn chunk true
  · trivial
  · trivial
  · exact hdraining

theorem tidy_stepDraining (h : (Stage.draining conn chunk).Tidy) :
    (s.stepDraining c conn chunk).stage.Tidy := by
  unfold stepDraining
  split
  · exact tidy_finishChunk _ chunk false
  · rename_i hnext
    have hconn := tidy_confirmed h hnext
    intro hnot
    exact absurd hconn (Bool.eq_false_iff.mp hnot)
  · rename_i hnext
    have hconn := tidy_confirmed h hnext
    exact tidy_receiveMessage hconn

theorem tidy_stepAttempting (h : conn.confirmed = true)
    (hs : s.stepAttempting c conn chunk n i attempt result = some s') : s'.stage.Tidy := by
  unfold stepAttempting at hs
  obtain ⟨trigger, -, rfl⟩ := Option.map_eq_some_iff.mp hs
  dsimp only
  split
  · exact tidy_nextTrigger h
  · split
    · split
      · trivial
      · exact tidy_nextTrigger h
    · exact h

theorem tidy_classify (outcome : ConnectionOutcome) : (s.classify c outcome).stage.Tidy := by
  unfold classify classifyStatus
  dsimp only
  repeat' split
  all_goals first | exact tidy_leave | trivial

theorem stepStage_tidy (htidy : s.stage.Tidy) (hs : s.stepStage c input = some s') : s'.stage.Tidy := by
  unfold stepStage at hs
  split at hs
  all_goals rename_i h
  all_goals rw [h] at htidy
  · unfold stepResolving at hs
    repeat' split at hs
    all_goals cases hs
    all_goals first | exact tidy_resolved _ | trivial
  · split at hs
    · cases hs
      exact tidy_stepTop _
    · cases hs
  · unfold stepSleeping at hs
    split at hs
    all_goals cases hs
    all_goals first | exact tidy_leave | exact tidy_afterBackoff
  · unfold stepRefreshing at hs
    split at hs
    all_goals cases hs
    all_goals first | exact tidy_leave | exact tidy_connect | trivial
  · unfold stepAuthorizing at hs
    split at hs
    all_goals cases hs
    all_goals trivial
  · unfold stepOpening at hs
    repeat' split at hs
    all_goals cases hs
    all_goals trivial
  · unfold stepReadingBody at hs
    split at hs
    all_goals cases hs
    all_goals trivial
  · unfold stepReading at hs
    repeat' split at hs
    all_goals cases hs
    all_goals first | exact tidy_receive _ _ | trivial
  · split at hs
    · cases hs
      exact tidy_stepDraining htidy
    · cases hs
  · obtain ⟨prev, -, hs⟩ := Option.bind_eq_some_iff.mp hs
    unfold stepPutting at hs
    repeat' split at hs
    all_goals cases hs
    · exact htidy
    · exact tidy_nextTrigger htidy
    · trivial
  · unfold stepDispatching at hs
    split at hs
    all_goals cases hs
    · trivial
    · exact htidy
  · split at hs
    · exact tidy_stepAttempting htidy hs
    · cases hs
  · unfold stepBackingOff at hs
    split at hs
    all_goals cases hs
    · trivial
    · exact htidy
  · unfold stepSending at hs
    split at hs
    · cases hs
      trivial
    · split at hs
      all_goals cases hs
      trivial
    · obtain ⟨mid, -, rfl⟩ := Option.map_eq_some_iff.mp hs
      exact fun hnot => absurd htidy (Bool.eq_false_iff.mp hnot)
    · cases hs
  · split at hs
    · cases hs
      exact tidy_classify _
    · cases hs
  · unfold stepReporting at hs
    split at hs
    · cases hs
      exact tidy_after _
    · split at hs
      all_goals cases hs
      exact tidy_after _
    · obtain ⟨mid, -, rfl⟩ := Option.map_eq_some_iff.mp hs
      exact tidy_after _
    · cases hs
  · obtain ⟨pending, -, hs⟩ := Option.bind_eq_some_iff.mp hs
    unfold stepFlushing at hs
    repeat' split at hs
    all_goals cases hs
    all_goals trivial
  · unfold stepStartupExpired at hs
    split at hs
    · obtain ⟨mid, -, rfl⟩ := Option.map_eq_some_iff.mp hs
      trivial
    · split at hs
      all_goals cases hs
      trivial
    · cases hs
  · cases hs

theorem step_tidy (htidy : s.stage.Tidy) (hs : step c s input = some s') : s'.stage.Tidy := by
  unfold step at hs
  split at hs
  · split at hs
    · cases hs
      trivial
    · cases hs
  · split at hs
    · cases hs
    · cases hs
      exact htidy
  · cases hs
    exact htidy
  · exact stepStage_tidy htidy hs

theorem note_eq (input : Input) : s.note c seen input = seen ++ (s.sign c input).toList := by
  unfold note
  cases s.sign c input with
  | none => rw [Option.toList_none, List.append_nil]
  | some sign => rfl

/-- What a run is told on its way. -/
def signs (c : Setup) (s : System) (inputs : List Input) : List Sign :=
  Machine.observe (step c) (sign c) s inputs

/-- Every run is a run of its reconnect loop. -/
theorem run_control (seen : List Sign) {inputs : List Input} (h : Machine.run (step c) s inputs = some s')
    (htidy : s.stage.Tidy) :
    Steps c (s.control seen) (s'.control (seen ++ s.signs c inputs)) := by
  refine Machine.run_refines_observed control (fun _ _ _ => step_tidy) ?_ h htidy seen
  intro s e s' seen htidy hstep
  rw [← note_eq]
  exact step_control htidy hstep

end System
end Aviso.Watch
