import Aviso.Watch.Control

namespace Aviso.Watch

/-! ### What a run says about its reconnects -/

/-- The effects the delays depend on. -/
def Effect.paces : Effect → Bool
  | .ended _ _ | .backedOff _ => true
  | _ => false

/-- The effects of connecting. -/
def Effect.connects : Effect → Bool
  | .refreshCalled | .requested _ => true
  | _ => false

/-- The consecutive short sessions up to an effect. -/
def countShort (n : Nat) : Effect → Nat
  | .ended _ true => n + 1
  | .ended _ false => 0
  | _ => n

/-- The consecutive short sessions a run ends with. -/
def shortRun (trace : List Effect) : Nat := trace.foldl countShort 0

/-- The `Retry-After` value of a session that ended with 429 or 503. -/
def granted : ConnectionOutcome → Option Nat
  | .httpStatus status _ _ retryAfter => if status = 429 ∨ status = 503 then retryAfter else none
  | _ => none

/-- A value is owed from the end of its session to the next wait. -/
def owe (owed : Option Nat) : Effect → Option Nat
  | .ended outcome _ => granted outcome
  | .backedOff _ => none
  | _ => owed

/-- The `Retry-After` value a run owes to its next reconnect. -/
def owed (trace : List Effect) : Option Nat := trace.foldl owe none

/-- The window of a reconnect after `k` consecutive short sessions. -/
def shortWindow (k : Nat) : Nat := min (250 * 2 ^ min (k - 1) 20 * 10 ^ 6) (seconds 30)

section Trace

theorem foldl_paces {f : α → Effect → α} (hf : ∀ a e, e.paces = false → f a e = a) (a : α)
    (trace : List Effect) : (trace.filter Effect.paces).foldl f a = trace.foldl f a := by
  induction trace generalizing a with
  | nil => rfl
  | cons e trace ih =>
    cases he : e.paces with
    | true => rw [List.filter_cons_of_pos he, List.foldl_cons, List.foldl_cons, ih]
    | false =>
      rw [List.filter_cons_of_neg (by rw [he]; exact Bool.false_ne_true), List.foldl_cons, hf a e he, ih]

theorem shortRun_paces (trace : List Effect) : shortRun (trace.filter Effect.paces) = shortRun trace :=
  foldl_paces (fun a e he => by cases e <;> first | rfl | cases he) 0 trace

theorem owed_paces (trace : List Effect) : owed (trace.filter Effect.paces) = owed trace :=
  foldl_paces (fun a e he => by cases e <;> first | rfl | cases he) none trace

end Trace

section Backoff

/-- The shift of the computation is of twenty bits at most. -/
theorem checkedShl_bind (n : Nat) (f : Nat → Option Nat) :
    (checkedShl 1 (min n 20) >>= f) = f (2 ^ min n 20) := by
  have hlt : min n 20 < 64 := by omega
  have hpow : 2 ^ min n 20 < 2 ^ 64 := Nat.pow_lt_pow_right (by decide) hlt
  rw [checkedShl, if_pos hlt, Nat.one_mul, Nat.mod_eq_of_lt hpow]
  rfl

/-- The window in nanoseconds is a `u64`, and divides only where it is not zero. -/
theorem checkedRem_window (jitter nanos : Nat) :
    (if min (min nanos maxDelay) u64Max = 0 then some 0
      else checkedRem jitter (min (min nanos maxDelay) u64Max)) =
      some (if min nanos maxDelay = 0 then 0 else jitter % min nanos maxDelay) := by
  have hmax : maxDelay ≤ u64Max := by decide
  have hsame : min (min nanos maxDelay) u64Max = min nanos maxDelay :=
    Nat.min_eq_left (Nat.le_trans (Nat.min_le_right _ _) hmax)
  rw [hsame]
  by_cases hzero : min nanos maxDelay = 0
  · rw [if_pos hzero, if_pos hzero]
  · rw [if_neg hzero, if_neg hzero, checkedRem, if_neg hzero]

/-- No shift, product or division of the computation fails, whatever the attempt. -/
theorem computeBackoffChecked_eq (jitter attempt : Nat) (policy : ReconnectPolicy) :
    computeBackoffChecked jitter attempt policy = some (computeBackoff jitter attempt policy) := by
  cases policy with
  | immediate => rfl
  | shortBackoff => rfl
  | exponentialBackoff =>
    rw [computeBackoffChecked, checkedShl_bind, computeBackoff]
    exact checkedRem_window jitter (min (baseDelayMs * 2 ^ min attempt 20) u64Max * 10 ^ 6)

/-- The delay of an exponential retry is drawn from its window. -/
theorem computeBackoff_window (jitter k : Nat) :
    computeBackoff jitter (k - 1) .exponentialBackoff = jitter % shortWindow k := by
  have hpow : 2 ^ min (k - 1) 20 ≤ 2 ^ 20 := Nat.pow_le_pow_right (by decide) (Nat.min_le_right _ _)
  have hms : min (baseDelayMs * 2 ^ min (k - 1) 20) u64Max = 250 * 2 ^ min (k - 1) 20 := by
    unfold baseDelayMs u64Max
    omega
  have hpos : 0 < 2 ^ min (k - 1) 20 := Nat.pow_pos (by decide)
  have hne : min (250 * 2 ^ min (k - 1) 20 * 10 ^ 6) maxDelay ≠ 0 := by
    unfold maxDelay seconds
    omega
  rw [computeBackoff, hms, if_neg hne]
  rfl

theorem shortWindow_pos (k : Nat) : 0 < shortWindow k := by
  have hpos : 0 < 2 ^ min (k - 1) 20 := Nat.pow_pos (by decide)
  unfold shortWindow seconds
  omega

theorem computeBackoff_le (jitter attempt : Nat) (policy : ReconnectPolicy) :
    computeBackoff jitter attempt policy ≤ maxDelay := by
  cases policy with
  | immediate => exact Nat.zero_le _
  | shortBackoff => exact (by decide : shortBackoff ≤ maxDelay)
  | exponentialBackoff =>
    have hwindow := computeBackoff_window jitter (attempt + 1)
    rw [Nat.add_sub_cancel] at hwindow
    rw [hwindow]
    exact Nat.le_trans (Nat.le_of_lt (Nat.mod_lt _ (shortWindow_pos _))) (Nat.min_le_right _ _)

theorem parseRetryAfter_le {value : Option Text} {untilDate : Text → Option Nat} {d : Nat}
    (h : parseRetryAfter value untilDate = some d) : d ≤ maxHonoured := by
  obtain ⟨raw, -, h⟩ := Option.bind_eq_some_iff.mp h
  dsimp only at h
  split at h
  · cases h
    exact Nat.min_le_right _ _
  · obtain ⟨ahead, -, rfl⟩ := Option.map_eq_some_iff.mp h
    exact Nat.min_le_right _ _

end Backoff

/-! ### What a step does to the pacing -/

/-- A stage at which nothing of the pacing is left to do: neither the start nor the top of
the loop, and no `Retry-After` value at hand. -/
def Stage.plain : Stage → Bool
  | .resolving | .top | .readingBody _ _ _ | .ended (.httpStatus _ _ _ _) => false
  | _ => true

/-- The run never comes back to the top of the loop. -/
def Stage.past : Stage → Bool
  | .flushing _ | .startupExpired | .done => true
  | _ => false

namespace System

/-- The variables and the effects the delays depend on. -/
def pacing (s : System) : Nat × Option Nat × List Effect :=
  (s.vars.shortSessions, s.vars.retryAfterOverride, s.trace.filter Effect.paces)

/-- A state in a plain stage with the pacing `p`. -/
structure Calm (p : Nat × Option Nat × List Effect) (s : System) : Prop where
  pacing : s.pacing = p
  plain : s.stage.plain = true

section Frame

variable {c : Setup} {s s' : System} {p : Nat × Option Nat × List Effect}

theorem pacing_emit (h : s.pacing = p) {e : Effect} (he : e.paces = false) :
    (s.emit e).pacing = p := by
  rw [← h]
  simp [pacing, emit, List.filter_append, he]

theorem calm_leave (h : s.pacing = p) : Calm p (s.leave c) := by
  unfold leave
  split <;> exact ⟨h, rfl⟩

theorem calm_after (h : s.pacing = p) (next : After) : Calm p (s.after c next) := by
  cases next with
  | «return» => exact ⟨h, rfl⟩
  | «break» => exact calm_leave h
  | stopRequested => exact ⟨h, rfl⟩

theorem calm_connect (h : s.pacing = p) : Calm p (s.connect c) := by
  unfold connect
  split
  · exact ⟨h, rfl⟩
  · split
    · exact ⟨h, rfl⟩
    · split
      · exact ⟨h, rfl⟩
      · exact ⟨pacing_emit h rfl, rfl⟩

theorem calm_afterBackoff (h : s.pacing = p) : Calm p (s.afterBackoff c) := by
  unfold afterBackoff
  split
  · split
    · exact ⟨pacing_emit h rfl, rfl⟩
    · exact ⟨h, rfl⟩
  · exact calm_connect h

theorem calm_stepSleeping (h : s.stepSleeping c input = some s') : Calm s.pacing s' := by
  unfold stepSleeping at h
  split at h
  · cases h
    exact calm_leave rfl
  · cases h
    exact calm_afterBackoff rfl
  · cases h

theorem calm_stepRefreshing (h : s.stepRefreshing c input = some s') : Calm s.pacing s' := by
  unfold stepRefreshing at h
  split at h
  · cases h
    exact calm_leave rfl
  · cases h
    exact calm_connect rfl
  · cases h
    exact ⟨rfl, rfl⟩
  · cases h

theorem calm_stepAuthorizing (h : s.stepAuthorizing a input = some s') : Calm s.pacing s' := by
  unfold stepAuthorizing at h
  split at h
  · cases h
    exact ⟨rfl, rfl⟩
  · cases h
    have hrequested : (s.emit (.requested a.body)).pacing = s.pacing := pacing_emit rfl rfl
    exact ⟨hrequested, rfl⟩
  · cases h
    exact ⟨rfl, rfl⟩
  · cases h

/-- A response other than 200 is kept with the value of its header. -/
theorem stepOpening_pacing (h : s.stepOpening c a input = some s') :
    Calm s.pacing s' ∨ s'.pacing = s.pacing ∧ ∃ status requestId retryAfter,
      s'.stage = .readingBody status requestId retryAfter ∧ ∀ d ∈ retryAfter, d ≤ maxHonoured := by
  unfold stepOpening at h
  split at h
  · cases h
    exact .inl ⟨rfl, rfl⟩
  · cases h
    refine .inl ⟨rfl, ?_⟩
    show (Stage.ended (openingExpired _ _)).plain = true
    unfold openingExpired
    split <;> rfl
  · cases h
    exact .inl ⟨rfl, rfl⟩
  · split at h
    · cases h
      exact .inr ⟨rfl, _, _, _, rfl, fun d hd => parseRetryAfter_le hd⟩
    · split at h <;> cases h <;> exact .inl ⟨rfl, rfl⟩
  · cases h

theorem stepReadingBody_pacing (h : s.stepReadingBody status requestId retryAfter input = some s') :
    Calm s.pacing s' ∨ s'.pacing = s.pacing ∧ ∃ body,
      s'.stage = .ended (.httpStatus status body requestId retryAfter) := by
  unfold stepReadingBody at h
  split at h
  · cases h
    exact .inl ⟨rfl, rfl⟩
  · cases h
    exact .inr ⟨rfl, _, rfl⟩
  · cases h
    exact .inl ⟨rfl, rfl⟩
  · cases h
    exact .inr ⟨rfl, _, rfl⟩
  · cases h

theorem pacing_confirm (h : s.pacing = p) (opening : Opening) : (s.confirm c opening).pacing = p :=
  pacing_emit h rfl

theorem calm_receive (h : s.pacing = p) (conn : Connection) (chunk : Chunk) :
    Calm p (s.receive c conn chunk) := by
  unfold receive
  split
  · exact ⟨h, rfl⟩
  · split
    · exact ⟨h, rfl⟩
    · exact ⟨pacing_confirm h _, rfl⟩
    · dsimp only
      split <;> exact ⟨h, rfl⟩

theorem calm_stepReading (h : s.stepReading c conn input = some s') : Calm s.pacing s' := by
  unfold stepReading at h
  split at h
  · cases h
    exact ⟨rfl, rfl⟩
  · split at h
    · cases h
    · cases h
      refine ⟨rfl, ?_⟩
      show (Stage.ended (openingExpired _ _)).plain = true
      unfold openingExpired
      split <;> rfl
  · cases h
    exact ⟨rfl, rfl⟩
  · cases h
    exact ⟨rfl, rfl⟩
  · cases h
    exact calm_receive rfl _ _
  · cases h
    exact calm_receive rfl _ _
  · cases h

theorem calm_finishChunk (h : s.pacing = p) (conn : Connection) (chunk : Chunk) (closed : Bool) :
    Calm p (s.finishChunk conn chunk closed) := by
  unfold finishChunk
  repeat' split
  all_goals exact ⟨h, rfl⟩

theorem calm_nextTrigger (h : s.pacing = p) (conn : Connection) (chunk : Chunk) (n : Notification)
    (i : Nat) : Calm p (s.nextTrigger c conn chunk n i) := by
  unfold nextTrigger
  split <;> exact ⟨h, rfl⟩

theorem calm_receiveNotification (h : s.pacing = p) (conn : Connection) (chunk : Chunk)
    (n : Notification) : Calm p (s.receiveNotification c conn chunk n) := by
  have hreceived : ((s.apply (.notificationReceived n.sequence)).emit (.received n)).pacing = p :=
    pacing_emit h rfl
  unfold receiveNotification
  dsimp only
  split
  · exact ⟨hreceived, rfl⟩
  · split
    · split
      · exact ⟨hreceived, rfl⟩
      · refine calm_nextTrigger (pacing_emit ?_ rfl) _ _ _ _
        exact hreceived
    · refine calm_nextTrigger (pacing_emit ?_ rfl) _ _ _ _
      exact hreceived

theorem calm_receiveMessage (h : s.pacing = p) (conn : Connection) (chunk : Chunk)
    (m : Finesse.Message) : Calm p (s.receiveMessage c conn chunk m) := by
  unfold receiveMessage
  dsimp only
  split
  · exact ⟨h, rfl⟩
  · exact calm_receiveNotification h _ _ _
  · exact ⟨h, rfl⟩
  · exact ⟨h, rfl⟩
  · exact ⟨h, rfl⟩
  · exact ⟨h, rfl⟩
  · exact ⟨h, rfl⟩
  · exact ⟨h, rfl⟩
  · refine calm_finishChunk ?_ _ _ _
    exact h
  · exact ⟨h, rfl⟩
  · exact ⟨h, rfl⟩
  · exact ⟨h, rfl⟩

theorem calm_stepDraining (conn : Connection) (chunk : Chunk) :
    Calm s.pacing (s.stepDraining c conn chunk) := by
  unfold stepDraining
  split
  · exact calm_finishChunk rfl _ _ _
  · exact ⟨rfl, rfl⟩
  · exact calm_receiveMessage rfl _ _ _

theorem pacing_land (h : s.pacing = p) (cp : State.Checkpoint) : (s.land cp).pacing = p :=
  pacing_emit h rfl

theorem calm_stepPutting (h : s.stepPutting c conn chunk n landed prev input = some s') :
    Calm s.pacing s' := by
  unfold stepPutting at h
  split at h
  · split at h
    · cases h
    · cases h
      exact ⟨pacing_land rfl _, rfl⟩
  · split at h
    · cases h
      have hput : (s.emit (.put prev.checkpoint true)).pacing = s.pacing := pacing_emit rfl rfl
      refine calm_nextTrigger (pacing_emit ?_ rfl) _ _ _ _
      exact hput
    · cases h
  · cases h
    have hput : (s.emit (.put prev.checkpoint false)).pacing = s.pacing := pacing_emit rfl rfl
    exact ⟨hput, rfl⟩
  · cases h

theorem calm_stepDispatching (h : s.stepDispatching conn chunk n i input = some s') :
    Calm s.pacing s' := by
  unfold stepDispatching at h
  split at h <;> cases h <;> exact ⟨rfl, rfl⟩

theorem calm_stepAttempting (h : s.stepAttempting c conn chunk n i attempt result = some s') :
    Calm s.pacing s' := by
  unfold stepAttempting at h
  obtain ⟨trigger, -, rfl⟩ := Option.map_eq_some_iff.mp h
  have hattempted : (s.emit (.attempted i result)).pacing = s.pacing := pacing_emit rfl rfl
  dsimp only
  split
  · exact calm_nextTrigger hattempted _ _ _ _
  · split
    · split
      · exact ⟨hattempted, rfl⟩
      · exact calm_nextTrigger hattempted _ _ _ _
    · exact ⟨hattempted, rfl⟩

theorem calm_stepBackingOff (h : s.stepBackingOff conn chunk n i attempt input = some s') :
    Calm s.pacing s' := by
  unfold stepBackingOff at h
  split at h <;> cases h <;> exact ⟨rfl, rfl⟩

theorem pacing_accept (h : s.accept c item = some s') : s'.pacing = s.pacing := by
  unfold accept at h
  split at h <;> cases h
  rfl

theorem calm_stepSending (h : s.stepSending c conn chunk n input = some s') : Calm s.pacing s' := by
  unfold stepSending at h
  split at h
  · cases h
    exact ⟨rfl, rfl⟩
  · split at h <;> cases h
    exact ⟨rfl, rfl⟩
  · obtain ⟨mid, haccept, rfl⟩ := Option.map_eq_some_iff.mp h
    exact ⟨pacing_emit (pacing_accept haccept) rfl, rfl⟩
  · cases h

theorem calm_stepReporting (h : s.stepReporting c e next input = some s') : Calm s.pacing s' := by
  unfold stepReporting at h
  split at h
  · cases h
    exact calm_after rfl _
  · split at h <;> cases h
    exact calm_after rfl _
  · obtain ⟨mid, haccept, rfl⟩ := Option.map_eq_some_iff.mp h
    exact calm_after (pacing_emit (pacing_accept haccept) rfl) _
  · cases h

theorem calm_stepFlushing (h : s.stepFlushing landed pending input = some s') :
    Calm s.pacing s' ∧ s'.stage.past = true := by
  unfold stepFlushing at h
  split at h
  · split at h <;> cases h
    exact ⟨⟨pacing_land rfl _, rfl⟩, rfl⟩
  · split at h <;> cases h
    have hput : (s.emit (.put pending.checkpoint true)).pacing = s.pacing := pacing_emit rfl rfl
    exact ⟨⟨hput, rfl⟩, rfl⟩
  · cases h
    have hput : (s.emit (.put pending.checkpoint false)).pacing = s.pacing := pacing_emit rfl rfl
    exact ⟨⟨hput, rfl⟩, rfl⟩
  · cases h

theorem calm_stepStartupExpired (h : s.stepStartupExpired c input = some s') :
    Calm s.pacing s' ∧ s'.stage.past = true := by
  unfold stepStartupExpired at h
  split at h
  · obtain ⟨mid, haccept, rfl⟩ := Option.map_eq_some_iff.mp h
    exact ⟨⟨pacing_emit (pacing_accept haccept) rfl, rfl⟩, rfl⟩
  · split at h <;> cases h
    exact ⟨⟨rfl, rfl⟩, rfl⟩
  · cases h

theorem stepResolving_pacing (h : s.stepResolving c input = some s') :
    Calm s.pacing s' ∨ s'.stage = .top ∧ s'.pacing = (0, none, s.trace.filter Effect.paces) := by
  have hresolved : ∀ (mid : System) (cursor : Option ResumeStart), mid.pacing = s.pacing →
      Calm s.pacing (mid.resolved c cursor) ∨
        (mid.resolved c cursor).stage = .top ∧
          (mid.resolved c cursor).pacing = (0, none, s.trace.filter Effect.paces) := by
    intro mid cursor hmid
    have htrace : mid.trace.filter Effect.paces = s.trace.filter Effect.paces :=
      congrArg (fun p => p.2.2) hmid
    unfold resolved
    split
    · exact .inr ⟨rfl, congrArg (fun t => (0, none, t)) htrace⟩
    · exact .inr ⟨rfl, congrArg (fun t => (0, none, t)) htrace⟩
    · exact .inl ⟨hmid, rfl⟩
  unfold stepResolving at h
  split at h
  · split at h
    · cases h
      exact hresolved _ _ rfl
    · split at h <;> cases h
      exact hresolved _ _ rfl
  · split at h <;> cases h
    exact .inl ⟨rfl, rfl⟩
  · split at h <;> cases h
    exact hresolved _ _ (pacing_emit rfl rfl)
  · split at h <;> cases h
    exact .inl ⟨rfl, rfl⟩
  · cases h

/-- What one step does to the pacing of a run. -/
inductive Pace (c : Setup) (s : System) : Input → System → Prop where
  /-- The consumer's steps, and none of the supervisor's. -/
  | still {e : Input} {s' : System} (stage : s'.stage = s.stage) (vars : s'.vars = s.vars)
      (trace : s'.trace = s.trace) : Pace c s e s'
  | begun {e : Input} {s' : System} (stage : s.stage = .resolving) (top : s'.stage = .top)
      (pacing : s'.pacing = (0, none, s.trace.filter Effect.paces)) : Pace c s e s'
  | turned (jitter : Nat) (stage : s.stage = .top) : Pace c s (.jitter jitter) (s.stepTop c jitter)
  | closed (outcome : ConnectionOutcome) (short : Bool) (stage : s.stage = .ended outcome) :
      Pace c s (.elapsed short) (s.stepEnded c outcome short)
  | answered {e : Input} {s' : System} {a : Attempt} {status : Nat} {requestId : Option Text}
      {retryAfter : Option Nat} (stage : s.stage = .opening a) (pacing : s'.pacing = s.pacing)
      (body : s'.stage = .readingBody status requestId retryAfter)
      (honoured : ∀ d ∈ retryAfter, d ≤ maxHonoured) : Pace c s e s'
  | refused {e : Input} {s' : System} {status : Nat} {body : Text} {requestId : Option Text}
      {retryAfter : Option Nat} (stage : s.stage = .readingBody status requestId retryAfter)
      (pacing : s'.pacing = s.pacing)
      (ended : s'.stage = .ended (.httpStatus status body requestId retryAfter)) : Pace c s e s'
  | moved {e : Input} {s' : System} (stage : s.stage ≠ .top)
      (past : s.stage.past = true → s'.stage.past = true) (calm : Calm s.pacing s') : Pace c s e s'

theorem stepStage_pace (hs : s.stepStage c e = some s') : Pace c s e s' := by
  have hmoved : ∀ {stage : Stage}, s.stage = stage → stage ≠ .top → stage.past = false →
      Calm s.pacing s' → Pace c s e s' := by
    intro stage hstage htop hpast hcalm
    refine .moved (hstage ▸ htop) (fun h => ?_) hcalm
    rw [hstage, hpast] at h
    cases h
  unfold stepStage at hs
  split at hs
  · rename_i hstage
    rcases stepResolving_pacing hs with hcalm | ⟨htop, hpacing⟩
    · exact hmoved hstage nofun rfl hcalm
    · exact .begun hstage htop hpacing
  · rename_i hstage
    split at hs
    · cases hs
      exact .turned _ hstage
    · cases hs
  · rename_i hstage
    exact hmoved hstage nofun rfl (calm_stepSleeping hs)
  · rename_i hstage
    exact hmoved hstage nofun rfl (calm_stepRefreshing hs)
  · rename_i hstage
    exact hmoved hstage nofun rfl (calm_stepAuthorizing hs)
  · rename_i hstage
    rcases stepOpening_pacing hs with hcalm | ⟨hpacing, status, requestId, retryAfter, hbody, hle⟩
    · exact hmoved hstage nofun rfl hcalm
    · exact .answered hstage hpacing hbody hle
  · rename_i hstage
    rcases stepReadingBody_pacing hs with hcalm | ⟨hpacing, body, hended⟩
    · exact hmoved hstage nofun rfl hcalm
    · exact .refused hstage hpacing hended
  · rename_i hstage
    exact hmoved hstage nofun rfl (calm_stepReading hs)
  · rename_i hstage
    split at hs
    · cases hs
      exact hmoved hstage nofun rfl (calm_stepDraining _ _)
    · cases hs
  · rename_i hstage
    obtain ⟨prev, -, hs⟩ := Option.bind_eq_some_iff.mp hs
    exact hmoved hstage nofun rfl (calm_stepPutting hs)
  · rename_i hstage
    exact hmoved hstage nofun rfl (calm_stepDispatching hs)
  · rename_i hstage
    split at hs
    · exact hmoved hstage nofun rfl (calm_stepAttempting hs)
    · cases hs
  · rename_i hstage
    exact hmoved hstage nofun rfl (calm_stepBackingOff hs)
  · rename_i hstage
    exact hmoved hstage nofun rfl (calm_stepSending hs)
  · rename_i hstage
    split at hs
    · cases hs
      exact .closed _ _ hstage
    · cases hs
  · rename_i hstage
    exact hmoved hstage nofun rfl (calm_stepReporting hs)
  · rename_i hstage
    obtain ⟨pending, -, hs⟩ := Option.bind_eq_some_iff.mp hs
    obtain ⟨hcalm, hpast⟩ := calm_stepFlushing hs
    exact .moved (hstage ▸ nofun) (fun _ => hpast) hcalm
  · rename_i hstage
    obtain ⟨hcalm, hpast⟩ := calm_stepStartupExpired hs
    exact .moved (hstage ▸ nofun) (fun _ => hpast) hcalm
  · cases hs

theorem step_pace (hs : step c s e = some s') : Pace c s e s' := by
  unfold step at hs
  split at hs
  · split at hs
    · rename_i hstarting
      cases hs
      refine .moved ?_ (fun _ => rfl) ⟨rfl, rfl⟩
      intro htop
      simp [starting, htop, Stage.awaits] at hstarting
    · cases hs
  · split at hs <;> cases hs
    exact .still rfl rfl rfl
  · cases hs
    exact .still rfl rfl rfl
  · exact stepStage_pace hs

/-- The loop is at its top with a lost connection behind it, unless it is over. -/
def Due (s : System) : Prop :=
  s.stage = .top ∧
    (s.vars.state.isTerminal = true ∨ s.vars.lastReconnectPolicy = some .exponentialBackoff)

theorem due_lost (s : System) (retryAfter : Option Nat) :
    Due ((((s.setVars { s.vars with retryAfterOverride := retryAfter }).apply
      (.connectionLost .transportError)).setVars
        ((s.setVars { s.vars with retryAfterOverride := retryAfter }).apply
          (.connectionLost .transportError)).vars.lost).goto .top) := by
  refine ⟨rfl, ?_⟩
  cases hterminal : s.vars.state.isTerminal with
  | true =>
    left
    have hkept : (s.vars.state.transition (.connectionLost .transportError)).2 = s.vars.state := by
      rw [WatchState.transition, if_pos hterminal]
    exact (congrArg WatchState.isTerminal hkept).trans hterminal
  | false =>
    right
    have hreconnects : (s.vars.state.transition (.connectionLost .transportError)).1 =
        .reconnect .exponentialBackoff := by
      rw [WatchState.transition, if_neg (by rw [hterminal]; exact Bool.false_ne_true)]
      rfl
    exact congrArg (applyOutcome s.vars.lastReconnectPolicy) hreconnects

/-- The end of a session counts it, and a 429 or 503 leaves its value for the next wait. -/
theorem classify_pacing (h : s.vars.retryAfterOverride = none) (outcome : ConnectionOutcome) :
    (s.classify c outcome).pacing =
        (s.vars.shortSessions, granted outcome, s.trace.filter Effect.paces) ∧
      ((s.classify c outcome).stage = .top ∨ (s.classify c outcome).stage.plain = true) ∧
      (granted outcome ≠ none → Due (s.classify c outcome)) := by
  have hkept : s.pacing = (s.vars.shortSessions, none, s.trace.filter Effect.paces) := by
    rw [pacing, h]
  cases outcome with
  | serverClosed => exact ⟨hkept, .inl rfl, fun hne => absurd rfl hne⟩
  | cancelled =>
    have hcalm : Calm _ (s.leave c) := calm_leave hkept
    exact ⟨hcalm.pacing, .inr hcalm.plain, fun hne => absurd rfl hne⟩
  | transportError => exact ⟨hkept, .inl rfl, fun hne => absurd rfl hne⟩
  | openingTimedOut e => exact ⟨hkept, .inl rfl, fun hne => absurd rfl hne⟩
  | unexpectedEof => exact ⟨hkept, .inl rfl, fun hne => absurd rfl hne⟩
  | heartbeatStarved => exact ⟨hkept, .inl rfl, fun hne => absurd rfl hne⟩
  | fatal e => exact ⟨hkept, .inr rfl, fun hne => absurd rfl hne⟩
  | httpStatus status body requestId retryAfter =>
    show (s.classifyStatus c status body requestId retryAfter).pacing = _ ∧ _ ∧ _
    rw [classify]
    by_cases hbusy : status = 429 ∨ status = 503
    · have hnot : status ≠ 401 := by omega
      have hgranted : granted (.httpStatus status body requestId retryAfter) = retryAfter := by
        rw [granted, if_pos hbusy]
      rw [classifyStatus, if_neg hnot, if_pos hbusy, hgranted]
      exact ⟨rfl, .inl rfl, fun _ => due_lost s retryAfter⟩
    · have hgranted : granted (.httpStatus status body requestId retryAfter) = none := by
        rw [granted, if_neg hbusy]
      rw [hgranted]
      refine ⟨?_, ?_, fun hne => absurd rfl hne⟩
      · unfold classifyStatus
        split
        · repeat' split
          all_goals exact hkept
        · split <;> exact hkept
      · unfold classifyStatus
        split
        · repeat' split
          · exact .inl rfl
          · exact .inr rfl
          · exact .inr rfl
        · split
          · exact .inl rfl
          · exact .inr rfl

theorem afterBackoff_trace (s : System) : ∃ rest, (s.afterBackoff c).trace = s.trace ++ rest := by
  unfold afterBackoff connect
  repeat' split
  all_goals first | exact ⟨_, rfl⟩ | exact ⟨[], (List.append_nil _).symm⟩

/-- A turn of the loop leaves it, connects at once, or waits before it connects. -/
theorem stepTop_cases (s : System) (jitter : Nat) :
    s.stepTop c jitter = s.leave c ∨
      s.vars.state.isTerminal = false ∧ s.vars.lastReconnectPolicy = none ∧
        s.stepTop c jitter = s.afterBackoff c ∨
      ∃ policy rest, s.vars.lastReconnectPolicy = some policy ∧
        (s.stepTop c jitter).trace = s.trace ++ .backedOff (s.vars.delay jitter policy) :: rest ∧
        Calm (s.vars.shortSessions, none, s.trace.filter Effect.paces ++
          [.backedOff (s.vars.delay jitter policy)]) (s.stepTop c jitter) := by
  unfold stepTop
  split
  · exact .inl rfl
  · rename_i hopen
    split
    · exact .inl rfl
    · split
      · rename_i hpolicy
        exact .inr (.inl ⟨Bool.not_eq_true _ ▸ hopen, hpolicy, rfl⟩)
      · rename_i policy hpolicy
        right
        right
        obtain ⟨waited, hwaited⟩ : ∃ waited, (s.setVars s.vars.settled).emit
          (.backedOff (s.vars.delay jitter policy)) = waited := ⟨_, rfl⟩
        have hpacing : waited.pacing = (s.vars.shortSessions, none,
            s.trace.filter Effect.paces ++ [.backedOff (s.vars.delay jitter policy)]) := by
          rw [← hwaited]
          simp [pacing, emit, setVars, Supervisor.settled, List.filter_append, Effect.paces]
        have htrace : waited.trace = s.trace ++ [.backedOff (s.vars.delay jitter policy)] := by
          rw [← hwaited]
          rfl
        obtain ⟨rest, hrest⟩ := waited.afterBackoff_trace (c := c)
        show ∃ policy' rest, s.vars.lastReconnectPolicy = some policy' ∧
          (if s.vars.delay jitter policy = 0 then
            ((s.setVars s.vars.settled).emit (.backedOff (s.vars.delay jitter policy))).afterBackoff c
          else (((s.setVars s.vars.settled).emit (.backedOff (s.vars.delay jitter policy))).apply
            (.backoffStarted (s.vars.delay jitter policy))).goto .sleeping).trace = _ ∧ Calm _
          (if s.vars.delay jitter policy = 0 then
            ((s.setVars s.vars.settled).emit (.backedOff (s.vars.delay jitter policy))).afterBackoff c
          else (((s.setVars s.vars.settled).emit (.backedOff (s.vars.delay jitter policy))).apply
            (.backoffStarted (s.vars.delay jitter policy))).goto .sleeping)
        rw [hwaited]
        split
        · refine ⟨policy, rest, hpolicy, ?_, calm_afterBackoff hpacing⟩
          rw [hrest, htrace, List.append_assoc]
          rfl
        · exact ⟨policy, [], hpolicy, htrace, hpacing, rfl⟩

end Frame

end System

end Aviso.Watch
