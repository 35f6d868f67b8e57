import Aviso.Watch.Delivery

namespace Aviso.Watch

/-- What a setup fixes for the delivery protocol. -/
def Setup.delivery (c : Setup) : Delivery.Config :=
  ⟨c.request.start, c.hasStore, c.relaxed, c.request.triggers.map (·.required)⟩

/-- The outcomes that end the watch. -/
def ConnectionOutcome.isFinal : ConnectionOutcome → Bool
  | .fatal _ | .cancelled => true
  | _ => false

def Stage.phase (c : Setup) : Stage → Delivery.Phase
  | .resolving => .resolving
  | .top | .sleeping | .refreshing | .readingBody _ _ _ => .idle
  | .authorizing a => .asking a.wireFrom a.body
  | .opening a => .listening (.new a.wireFrom c.relaxed)
  | .reading conn | .draining conn _ => .listening conn.gapGuard
  | .putting conn _ n _ => .putting conn.gapGuard n
  | .dispatching conn _ n i | .attempting conn _ n i _ | .backingOff conn _ n i _ =>
    .dispatching conn.gapGuard n i
  | .sending conn _ n => .sending conn.gapGuard n
  | .ended outcome => if outcome.isFinal then .leaving else .idle
  | .reporting _ _ | .flushing _ | .startupExpired | .done => .leaving

open Delivery (Step Steps)

namespace System

/-- The supervisor, seen as the delivery protocol. -/
def delivery (c : Setup) (s : System) : Delivery.State :=
  ⟨s.stage.phase c, s.vars.initialCursor, s.vars.commitCursor, s.vars.pendingCommit, s.store, s.trace⟩

variable {c : Setup} {s s' : System}

@[simp] theorem delivery_emit (e : Effect) : (s.emit e).delivery c = (s.delivery c).emit e := rfl

@[simp] theorem delivery_goto (stage : Stage) :
    (s.goto stage).delivery c = (s.delivery c).enter (stage.phase c) := rfl

@[simp] theorem delivery_apply (event : WatchEvent) : (s.apply event).delivery c = s.delivery c := rfl

@[simp] theorem delivery_close (outcome : ConnectionOutcome) :
    (s.close outcome).delivery c =
      (s.delivery c).enter (if outcome.isFinal then .leaving else .idle) := rfl

@[simp] theorem delivery_fail (e : ClientError) :
    (s.fail e).delivery c = (s.delivery c).enter .leaving := rfl

@[simp] theorem delivery_leave : (s.leave c).delivery c = (s.delivery c).enter .leaving := by
  unfold leave
  split <;> rfl

@[simp] theorem delivery_after (next : After) :
    (s.after c next).delivery c = (s.delivery c).enter .leaving := by
  cases next <;> simp [after, Stage.phase, ConnectionOutcome.isFinal]

theorem delivery_phase : (s.delivery c).phase = s.stage.phase c := rfl

/-- A stage of the same phase is the same state of the protocol. -/
theorem delivery_stays {stage : Stage} (h : s.stage.phase c = stage.phase c) :
    (s.goto stage).delivery c = s.delivery c := by
  simp only [delivery, goto, h]

theorem leaves : Steps c.delivery (s.delivery c) ((s.delivery c).enter .leaving) :=
  .single .leave

theorem quietly (e : Effect) (he : e.Quiet) (hp : (s.stage.phase c).Calm) :
    Steps c.delivery (s.delivery c) ((s.delivery c).emit e) :=
  .single (.quiet e he hp)

theorem fromParts_asks {start : Option ResumeStart}
    (h : WireWatchRequest.fromParts eventType filter start end_ = .ok body) : Asks start body := by
  unfold WireWatchRequest.fromParts at h
  dsimp only at h
  split at h
  · cases h
    simp [Asks]
  · cases h
    simp [Asks, ResumeStart.sequence]
  · split at h
    · cases h
      rename_i next hnext
      obtain ⟨rfl, -⟩ := checkedSucc_some hnext
      simp [Asks, ResumeStart.sequence]
    · cases h

theorem guardFor_eq (start : Option ResumeStart) : guardFor c start = .new start c.relaxed := by
  unfold guardFor
  cases c.relaxed <;> rfl

theorem connect_steps (h : s.stage.phase c = .idle) :
    Steps c.delivery (s.delivery c) ((s.connect c).delivery c) := by
  have hleave : Steps c.delivery (s.delivery c) ((s.delivery c).enter .leaving) :=
    leaves
  unfold connect
  split
  · exact hleave
  · split
    · exact hleave
    · rename_i body hbody
      have hask : Step c.delivery (s.delivery c)
          ((s.delivery c).enter (.asking s.vars.wireFrom body)) :=
        .ask body h (fromParts_asks hbody)
      split
      · exact .single hask
      · exact .tail (.single hask) (.request rfl)

theorem afterBackoff_steps (h : s.stage.phase c = .idle) :
    Steps c.delivery (s.delivery c) ((s.afterBackoff c).delivery c) := by
  unfold afterBackoff
  split
  · split
    · have hstay : (s.emit .refreshCalled).stage.phase c = Stage.refreshing.phase c := h
      rw [delivery_stays hstay]
      exact quietly _ trivial (by simp [h, Delivery.Phase.Calm])
    · exact leaves
  · exact connect_steps h

theorem stepTop_steps (h : s.stage.phase c = .idle) (jitter : Nat) :
    Steps c.delivery (s.delivery c) ((s.stepTop c jitter).delivery c) := by
  unfold stepTop
  split
  · rw [delivery_leave]
    exact leaves
  · split
    · rw [delivery_leave]
      exact leaves
    · split
      · exact afterBackoff_steps h
      · rename_i policy hpolicy
        generalize backoffOf s.vars policy = attempt
        obtain ⟨attempt, policy⟩ := attempt
        dsimp only
        generalize s.vars.retryAfterOverride.getD (computeBackoff jitter attempt policy) = delay
        have hquiet := quietly (s := s) (c := c) (.backedOff delay) trivial
          (by simp [h, Delivery.Phase.Calm])
        split
        · have hnext := afterBackoff_steps (c := c) (s := (s.setVars { s.vars with
            lastReconnectPolicy := none, retryAfterOverride := none }).emit (.backedOff delay)) h
          exact hquiet.trans hnext
        · rw [delivery_stays (by exact h)]
          exact hquiet

/-- A step inside the phase it is in changes nothing. -/
theorem same (h : s'.delivery c = s.delivery c) :
    Steps c.delivery (s.delivery c) (s'.delivery c) := h ▸ .refl

theorem resolved_steps (h : s.stage.phase c = .resolving) {cursor : Option ResumeStart}
    (hc : c.delivery.Resolves s.store cursor) :
    Steps c.delivery (s.delivery c) ((s.resolved c cursor).delivery c) := by
  have hres : Step c.delivery (s.delivery c) { s.delivery c with
      phase := .idle, start := cursor, commit := cursor.bind ResumeStart.sequence, pending := none } :=
    .resolve cursor h hc
  unfold resolved
  split
  · exact .single hres
  · exact .single hres
  · exact leaves

theorem stepResolving_steps (h : s.stage.phase c = .resolving)
    (hs : s.stepResolving c input = some s') :
    Steps c.delivery (s.delivery c) (s'.delivery c) := by
  unfold stepResolving at hs
  split at hs
  · split at hs
    · cases hs
      exact resolved_steps h (by simp [Delivery.Config.Resolves, Setup.delivery, *])
    · split at hs
      · cases hs
      · cases hs
        exact resolved_steps h (by simp [Delivery.Config.Resolves, Setup.delivery, *])
  · split at hs
    · cases hs
      exact leaves
    · cases hs
  · split at hs
    · cases hs
      rename_i hcond
      simp only [Bool.and_eq_true, Option.isNone_iff_eq_none] at hcond
      have hresolves : c.delivery.Resolves s.store
          (s.store.map fun cp => .afterSequence cp.lastCommittedSequence) := by
        simp [Delivery.Config.Resolves, Setup.delivery, hcond]
      exact (quietly (.fetched s.store) trivial (by simp [h, Delivery.Phase.Calm])).trans
        (resolved_steps (s := s.emit (.fetched s.store)) h hresolves)
    · cases hs
  · split at hs
    · cases hs
      exact leaves
    · cases hs
  · cases hs

theorem stepSleeping_steps (h : s.stage.phase c = .idle) (hs : s.stepSleeping c input = some s') :
    Steps c.delivery (s.delivery c) (s'.delivery c) := by
  unfold stepSleeping at hs
  split at hs
  · cases hs
    rw [delivery_leave]
    exact leaves
  · cases hs
    exact afterBackoff_steps (s := s.apply .backoffElapsed) h
  · cases hs

theorem stepRefreshing_steps (h : s.stage.phase c = .idle)
    (hs : s.stepRefreshing c input = some s') :
    Steps c.delivery (s.delivery c) (s'.delivery c) := by
  unfold stepRefreshing at hs
  split at hs
  · cases hs
    rw [delivery_leave]
    exact leaves
  · cases hs
    exact connect_steps (s := (s.setVars { s.vars with refreshedForCurrentAttempt := true }).apply
      (.authRefreshCompleted true)) h
  · cases hs
    exact leaves
  · cases hs

theorem stepAuthorizing_steps (h : s.stage.phase c = .asking a.wireFrom a.body)
    (hs : s.stepAuthorizing a input = some s') :
    Steps c.delivery (s.delivery c) (s'.delivery c) := by
  unfold stepAuthorizing at hs
  split at hs
  · cases hs
    exact leaves
  · cases hs
    exact .single (.request h)
  · cases hs
    exact leaves
  · cases hs

theorem loses (h : s.stage.phase c = .listening g) :
    Steps c.delivery (s.delivery c) ((s.delivery c).enter .idle) :=
  .single (.lose h)

/-- A connection without a notification at hand may end in any way. -/
theorem close_steps (h : s.stage.phase c = .listening g) (outcome : ConnectionOutcome) :
    Steps c.delivery (s.delivery c) ((s.close outcome).delivery c) := by
  rw [delivery_close]
  split
  · exact leaves
  · exact loses h

theorem stepOpening_steps (h : s.stage.phase c = .listening (.new a.wireFrom c.relaxed))
    (hs : s.stepOpening c a input = some s') :
    Steps c.delivery (s.delivery c) (s'.delivery c) := by
  unfold stepOpening at hs
  split at hs
  · cases hs
    exact close_steps h _
  · cases hs
    exact close_steps h _
  · cases hs
    exact close_steps h _
  · split at hs
    · cases hs
      exact loses h
    · split at hs
      · cases hs
        exact same (delivery_stays (by rw [h, Stage.phase, guardFor_eq]))
      · cases hs
        exact close_steps h _
  · cases hs

theorem stepReadingBody_steps (h : s.stage.phase c = .idle)
    (hs : s.stepReadingBody status requestId retryAfter input = some s') :
    Steps c.delivery (s.delivery c) (s'.delivery c) := by
  have hend (outcome : ConnectionOutcome) :
      Steps c.delivery (s.delivery c) ((s.close outcome).delivery c) := by
    rw [delivery_close]
    split
    · exact leaves
    · have htop : s.stage.phase c = Stage.top.phase c := h
      exact same (delivery_stays htop)
  unfold stepReadingBody at hs
  split at hs <;> cases hs <;> exact hend _

theorem confirm_steps (h : s.stage.phase c = .listening g) (opening : Opening) :
    Steps c.delivery (s.delivery c) ((s.confirm c opening).delivery c) :=
  quietly (.confirmed opening) trivial (by simp [h, Delivery.Phase.Calm])

theorem receive_steps (h : s.stage.phase c = .listening conn.gapGuard) (chunk : Chunk) :
    Steps c.delivery (s.delivery c) ((s.receive c conn chunk).delivery c) := by
  unfold receive
  split
  · exact same (delivery_stays h)
  · split
    · exact close_steps h _
    · refine (confirm_steps h _).trans (same (delivery_stays ?_))
      exact h
    · dsimp only
      split
      · exact same (delivery_stays h)
      · exact same (delivery_stays h)

theorem stepReading_steps (h : s.stage.phase c = .listening conn.gapGuard)
    (hs : s.stepReading c conn input = some s') :
    Steps c.delivery (s.delivery c) (s'.delivery c) := by
  unfold stepReading at hs
  split at hs
  · cases hs
    exact close_steps (s := s.apply .stop) h _
  · split at hs
    · cases hs
    · cases hs
      exact close_steps h _
  · cases hs
    exact close_steps (s := s.apply .heartbeatStarvation) h _
  · cases hs
    exact close_steps h _
  · cases hs
    exact receive_steps (by exact h) _
  · cases hs
    exact receive_steps (by exact h) _
  · cases hs

theorem finishChunk_steps (h : s.stage.phase c = .listening conn.gapGuard) (chunk : Chunk)
    (serverClosed : Bool) :
    Steps c.delivery (s.delivery c) ((s.finishChunk conn chunk serverClosed).delivery c) := by
  unfold finishChunk
  split
  · exact close_steps (s := s.apply _) h _
  · split
    · exact close_steps h _
    · split
      · exact close_steps h _
      · split
        · exact close_steps (s := s.apply _) h _
        · exact same (delivery_stays h)

theorem nextTrigger_steps (h : s.stage.phase c = .dispatching conn.gapGuard n i) :
    Steps c.delivery (s.delivery c) ((s.nextTrigger c conn chunk n i).delivery c) := by
  unfold nextTrigger
  split
  · exact same (delivery_stays h)
  · refine .single (.complete h ?_)
    simp only [Setup.delivery, List.length_map]
    omega

theorem beginDispatch_steps {σ : Delivery.State}
    (h : Step c.delivery σ (((s.emit (.dispatched n)).goto (.dispatching conn chunk n 0)).delivery c)) :
    Steps c.delivery σ ((s.beginDispatch c conn chunk n).delivery c) := by
  have hnext : Steps c.delivery
      (((s.emit (.dispatched n)).goto (.dispatching conn chunk n 0)).delivery c)
      ((s.beginDispatch c conn chunk n).delivery c) :=
    nextTrigger_steps (s := (s.emit (.dispatched n)).goto (.dispatching conn chunk n 0)) rfl
  exact .trans (.single h) hnext

/-- A notification is taken, with the commit cursor the code then has. -/
theorem take_step (h : s.stage.phase c = .listening g) (hn : n.sequence ≤ u64Max)
    (hobs : g.observe n.sequence = .ok g')
    (hpending : c.hasStore = true → s.vars.pendingCommit = none)
    (hcommit : lastDelivered s.vars.pendingCommit s.vars.commitCursor = commit) :
    Step c.delivery (s.delivery c)
      { (((s.delivery c).emit (.received n)).emit (.dispatched n)).enter (.dispatching g' n 0) with
        commit := commit } := by
  subst hcommit
  exact .take n h hn hobs hpending

theorem receiveNotification_steps (h : s.stage.phase c = .listening conn.gapGuard)
    (hn : n.sequence ≤ u64Max) :
    Steps c.delivery (s.delivery c) ((s.receiveNotification c conn chunk n).delivery c) := by
  unfold receiveNotification
  dsimp only
  split
  · rename_i hobs
    exact .single (.refuse n h hobs)
  · rename_i guard hobs
    split
    · rename_i prev hprev
      have hcommit : lastDelivered s.vars.pendingCommit s.vars.commitCursor = some prev.sequence := by
        simp only [lastDelivered, show s.vars.pendingCommit = some prev from hprev, Option.map_some,
          Option.some_or]
      split
      · rename_i hstore
        exact .single (.hold n prev h hn hobs hstore hprev)
      · rename_i hstore
        exact beginDispatch_steps (take_step h hn hobs (fun hs => absurd hs hstore) hcommit)
    · rename_i hprev
      have hcommit : lastDelivered s.vars.pendingCommit s.vars.commitCursor = s.vars.commitCursor := by
        simp only [lastDelivered, show s.vars.pendingCommit = none from hprev, Option.map_none,
          Option.none_or]
      exact beginDispatch_steps (take_step h hn hobs (fun _ => hprev) hcommit)

theorem receiveMessage_steps (h : s.stage.phase c = .listening conn.gapGuard) :
    Steps c.delivery (s.delivery c) ((s.receiveMessage c conn chunk m).delivery c) := by
  have hstay : Steps c.delivery (s.delivery c) ((s.goto (.draining conn chunk)).delivery c) :=
    same (delivery_stays h)
  have hleave : Steps c.delivery (s.delivery c) ((s.delivery c).enter .leaving) :=
    leaves
  unfold receiveMessage
  dsimp only
  split
  · exact hstay
  · exact receiveNotification_steps h (Serde.incoming_le ‹_›)
  · exact hleave
  · exact hleave
  · exact hstay
  · exact hstay
  · exact hleave
  · exact hleave
  · exact finishChunk_steps (s := s.apply _) h chunk true
  · exact hleave
  · exact hleave
  · exact hstay

theorem stepDraining_steps (h : s.stage.phase c = .listening conn.gapGuard) :
    Steps c.delivery (s.delivery c) ((s.stepDraining c conn chunk).delivery c) := by
  unfold stepDraining
  split
  · exact finishChunk_steps (by exact h) chunk false
  · exact same (delivery_stays h)
  · exact receiveMessage_steps (by exact h)

theorem stepPutting_steps (h : s.stage.phase c = .putting conn.gapGuard n)
    (hp : s.vars.pendingCommit = some prev)
    (hs : s.stepPutting c conn chunk n landed prev input = some s') :
    Steps c.delivery (s.delivery c) (s'.delivery c) := by
  unfold stepPutting at hs
  split at hs
  · split at hs
    · cases hs
    · cases hs
      rw [delivery_stays (by exact h)]
      exact .single (.land prev h hp)
  · split at hs
    · cases hs
      exact beginDispatch_steps (.stored prev h hp)
    · cases hs
  · cases hs
    exact .single (.rejected prev h hp)
  · cases hs

theorem stepDispatching_steps (h : s.stage.phase c = .dispatching conn.gapGuard n i)
    (hs : s.stepDispatching conn chunk n i input = some s') :
    Steps c.delivery (s.delivery c) (s'.delivery c) := by
  unfold stepDispatching at hs
  split at hs
  · cases hs
    exact leaves
  · cases hs
    exact same (delivery_stays h)
  · cases hs

theorem stepAttempting_steps (h : s.stage.phase c = .dispatching conn.gapGuard n i)
    (hs : s.stepAttempting c conn chunk n i attempt result = some s') :
    Steps c.delivery (s.delivery c) (s'.delivery c) := by
  unfold stepAttempting at hs
  obtain ⟨trigger, htrigger, hs⟩ := Option.map_eq_some_iff.mp hs
  have hpass (hr : trigger.required = true → result = .ok ()) : Steps c.delivery (s.delivery c)
      (((s.emit (.attempted i result)).nextTrigger c conn chunk n (i + 1)).delivery c) := by
    have hstep : Step c.delivery (s.delivery c)
        (((s.delivery c).emit (.attempted i result)).enter
          (.dispatching conn.gapGuard n (i + 1))) := by
      refine .pass result h fun hreq => hr ?_
      simpa [Setup.delivery, htrigger] using hreq
    have hnext : Steps c.delivery
        (((s.emit (.attempted i result)).goto (.dispatching conn chunk n (i + 1))).delivery c)
        (((s.emit (.attempted i result)).nextTrigger c conn chunk n (i + 1)).delivery c) :=
      nextTrigger_steps
        (s := (s.emit (.attempted i result)).goto (.dispatching conn chunk n (i + 1))) rfl
    exact .trans (.single hstep) hnext
  have hretry : Steps c.delivery (s.delivery c) ((s.delivery c).emit (.attempted i result)) :=
    .single (.retry result h)
  dsimp only at hs
  split at hs
  · cases hs
    exact hpass fun _ => rfl
  · split at hs
    · split at hs
      · cases hs
        exact hretry.trans (leaves (s := s.emit _))
      · cases hs
        exact hpass fun hreq => absurd hreq ‹_›
    · cases hs
      rw [delivery_stays (by exact h)]
      exact hretry

theorem stepBackingOff_steps (h : s.stage.phase c = .dispatching conn.gapGuard n i)
    (hs : s.stepBackingOff conn chunk n i attempt input = some s') :
    Steps c.delivery (s.delivery c) (s'.delivery c) := by
  unfold stepBackingOff at hs
  split at hs
  · cases hs
    exact leaves
  · cases hs
    exact same (delivery_stays h)
  · cases hs

theorem accept_delivery (h : s.accept c item = some s') : s'.vars = s.vars ∧
    s'.delivery c = s.delivery c := by
  unfold accept at h
  split at h
  · cases h
    exact ⟨rfl, rfl⟩
  · cases h

theorem stepSending_steps (h : s.stage.phase c = .sending conn.gapGuard n)
    (hs : s.stepSending c conn chunk n input = some s') :
    Steps c.delivery (s.delivery c) (s'.delivery c) := by
  unfold stepSending at hs
  split at hs
  · cases hs
    exact leaves
  · split at hs
    · cases hs
      exact leaves
    · cases hs
  · obtain ⟨mid, hmid, rfl⟩ := Option.map_eq_some_iff.mp hs
    obtain ⟨hvars, hsame⟩ := accept_delivery hmid
    rw [← hsame]
    have hphase : mid.stage.phase c = .sending conn.gapGuard n := by
      rw [← delivery_phase, hsame, delivery_phase, h]
    exact .single (.send hphase)
  · cases hs

theorem stepReporting_steps (h : s.stage.phase c = .leaving)
    (hs : s.stepReporting c e next input = some s') :
    Steps c.delivery (s.delivery c) (s'.delivery c) := by
  unfold stepReporting at hs
  split at hs
  · cases hs
    rw [delivery_after]
    exact leaves
  · split at hs
    · cases hs
      rw [delivery_after]
      exact leaves
    · cases hs
  · obtain ⟨mid, hmid, rfl⟩ := Option.map_eq_some_iff.mp hs
    obtain ⟨-, hsame⟩ := accept_delivery hmid
    have hphase : mid.stage.phase c = .leaving := by
      rw [← delivery_phase, hsame, delivery_phase, h]
    rw [← hsame, delivery_after]
    have hquiet : Steps c.delivery (mid.delivery c) ((mid.delivery c).emit (.reported e)) :=
      quietly (.reported e) trivial (by simp [hphase, Delivery.Phase.Calm])
    exact hquiet.trans (leaves (s := mid.emit (.reported e)))
  · cases hs

theorem classifyStatus_steps (h : s.stage.phase c = .idle) :
    Steps c.delivery (s.delivery c)
      ((s.classifyStatus c status body requestId retryAfter).delivery c) := by
  have hleave : Steps c.delivery (s.delivery c) ((s.delivery c).enter .leaving) :=
    leaves
  have htop : Steps c.delivery (s.delivery c) ((s.goto .top).delivery c) :=
    same (delivery_stays h)
  unfold classifyStatus
  split
  · split
    · exact htop
    · split
      · exact hleave
      · exact hleave
  · split
    · exact htop
    · split
      · exact htop
      · exact hleave

theorem classify_steps (h : s.stage.phase c = if outcome.isFinal then .leaving else .idle) :
    Steps c.delivery (s.delivery c) ((s.classify c outcome).delivery c) := by
  have hleave : Steps c.delivery (s.delivery c) ((s.delivery c).enter .leaving) :=
    leaves
  have htop (hidle : outcome.isFinal = false) :
      Steps c.delivery (s.delivery c) ((s.goto .top).delivery c) :=
    same (delivery_stays (h.trans (by simp [hidle, Stage.phase])))
  cases outcome with
  | cancelled => rw [classify, delivery_leave]; exact hleave
  | fatal e => exact hleave
  | httpStatus status body requestId retryAfter => exact classifyStatus_steps h
  | serverClosed => exact htop rfl
  | transportError => exact htop rfl
  | unexpectedEof => exact htop rfl
  | heartbeatStarved => exact htop rfl
  | openingTimedOut e => exact htop rfl

theorem stepEnded_steps (h : s.stage.phase c = if outcome.isFinal then .leaving else .idle)
    (short : Bool) :
    Steps c.delivery (s.delivery c) ((s.stepEnded c outcome short).delivery c) := by
  have hcalm : (s.stage.phase c).Calm := by
    rw [h]
    split <;> trivial
  unfold stepEnded
  dsimp only
  generalize (if short = true then saturatingSucc32 s.vars.shortSessions else 0) = shortSessions
  have hnext := classify_steps (c := c) (s := (s.setVars { s.vars with
    shortSessions := shortSessions }).emit (.ended outcome short)) h
  exact (quietly (.ended outcome short) trivial hcalm).trans hnext

theorem stepFlushing_steps (h : s.stage.phase c = .leaving) (hp : s.vars.pendingCommit = some pending)
    (hs : s.stepFlushing landed pending input = some s') :
    Steps c.delivery (s.delivery c) (s'.delivery c) := by
  unfold stepFlushing at hs
  split at hs
  · split at hs
    · cases hs
    · cases hs
      rw [delivery_stays (by exact h)]
      exact .single (.flush pending h hp)
  · split at hs
    · cases hs
      rw [delivery_stays (by exact h)]
      exact .single (.flushed pending true h hp)
    · cases hs
  · cases hs
    rw [delivery_stays (by exact h)]
    exact .single (.flushed pending false h hp)
  · cases hs

theorem stepStartupExpired_steps (h : s.stage.phase c = .leaving)
    (hs : s.stepStartupExpired c input = some s') :
    Steps c.delivery (s.delivery c) (s'.delivery c) := by
  unfold stepStartupExpired at hs
  split at hs
  · obtain ⟨mid, hmid, rfl⟩ := Option.map_eq_some_iff.mp hs
    obtain ⟨-, hsame⟩ := accept_delivery hmid
    have hphase : mid.stage.phase c = .leaving := by
      rw [← delivery_phase, hsame, delivery_phase, h]
    rw [← hsame, delivery_stays (by exact hphase)]
    exact quietly (.reported startupTimedOut) trivial (by simp [hphase, Delivery.Phase.Calm])
  · split at hs
    · cases hs
      exact leaves
    · cases hs
  · cases hs

theorem stepStage_steps (hs : s.stepStage c input = some s') :
    Steps c.delivery (s.delivery c) (s'.delivery c) := by
  unfold stepStage at hs
  split at hs
  all_goals rename_i hstage
  all_goals have h := congrArg (Stage.phase c) hstage
  · exact stepResolving_steps h hs
  · split at hs
    · cases hs
      exact stepTop_steps h _
    · cases hs
  · exact stepSleeping_steps h hs
  · exact stepRefreshing_steps h hs
  · exact stepAuthorizing_steps h hs
  · exact stepOpening_steps h hs
  · exact stepReadingBody_steps h hs
  · exact stepReading_steps h hs
  · split at hs
    · cases hs
      exact stepDraining_steps h
    · cases hs
  · obtain ⟨prev, hp, hs⟩ := Option.bind_eq_some_iff.mp hs
    exact stepPutting_steps h hp hs
  · exact stepDispatching_steps h hs
  · split at hs
    · exact stepAttempting_steps h hs
    · cases hs
  · exact stepBackingOff_steps h hs
  · exact stepSending_steps h hs
  · split at hs
    · cases hs
      exact stepEnded_steps h _
    · cases hs
  · exact stepReporting_steps h hs
  · obtain ⟨pending, hp, hs⟩ := Option.bind_eq_some_iff.mp hs
    exact stepFlushing_steps h hp hs
  · exact stepStartupExpired_steps h hs
  · cases hs

/-- Every step of the supervisor is a step of the delivery protocol, or several, or none. -/
theorem step_steps (hs : step c s input = some s') :
    Steps c.delivery (s.delivery c) (s'.delivery c) := by
  unfold step at hs
  split at hs
  · split at hs
    · cases hs
      exact leaves
    · cases hs
  · split at hs
    · cases hs
    · cases hs
      exact .refl
  · cases hs
    exact .refl
  · exact stepStage_steps hs

end System
end Aviso.Watch
