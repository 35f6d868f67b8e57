import Aviso.Proofs.OpeningGate
import Aviso.Proofs.Pacing

namespace Aviso.Watch

open Lib (Machine)

namespace System

/-- The `Retry-After` value a stage carries to the end of its session. -/
def carried : Stage → Option Nat
  | .readingBody _ _ retryAfter => retryAfter
  | .ended (.httpStatus _ _ _ retryAfter) => retryAfter
  | _ => none

/-- The counter and the value of the loop are those its past calls for. -/
structure Paced (s : System) : Prop where
  short : s.vars.shortSessions = min (shortRun s.trace) (2 ^ 32 - 1)
  owed : s.vars.retryAfterOverride = owed s.trace
  honoured : ∀ d ∈ s.vars.retryAfterOverride, d ≤ maxHonoured
  carried : ∀ d ∈ carried s.stage, d ≤ maxHonoured
  due : s.vars.retryAfterOverride ≠ none → s.stage.past = true ∨ Due s
  fresh : s.stage = .resolving → s.trace.filter Effect.paces = []

section Law

variable {c : Setup} {s s' : System}

theorem pacing_eq (h : s'.pacing = s.pacing) :
    s'.vars.shortSessions = s.vars.shortSessions ∧
      s'.vars.retryAfterOverride = s.vars.retryAfterOverride ∧
      shortRun s'.trace = shortRun s.trace ∧ Watch.owed s'.trace = Watch.owed s.trace := by
  simp only [pacing, Prod.mk.injEq] at h
  obtain ⟨hshort, hvalue, htrace⟩ := h
  refine ⟨hshort, hvalue, ?_, ?_⟩
  · rw [← shortRun_paces s'.trace, htrace, shortRun_paces]
  · rw [← owed_paces s'.trace, htrace, owed_paces]

theorem carried_plain {stage : Stage} (h : stage.plain = true) : System.carried stage = none := by
  unfold System.carried
  split
  · exact absurd h Bool.false_ne_true
  · exact absurd h Bool.false_ne_true
  · rfl

/-- No value is at hand while a connection is made or read. -/
theorem Paced.settled (h : s.Paced) (hpast : s.stage.past = false) (htop : s.stage ≠ .top) :
    s.vars.retryAfterOverride = none := by
  by_contra hne
  rcases h.due hne with hover | hdue
  · rw [hpast] at hover
    cases hover
  · exact htop hdue.1

theorem Paced.start (store : Option State.Checkpoint) : (System.start store).Paced where
  short := rfl
  owed := rfl
  honoured := by rintro _ ⟨⟩
  carried := by rintro _ ⟨⟩
  due hne := absurd rfl hne
  fresh _ := rfl

/-- Steps that change nothing of the pacing. -/
theorem Paced.keep (h : s.Paced) (hpacing : s'.pacing = s.pacing)
    (hcarried : ∀ d ∈ System.carried s'.stage, d ≤ maxHonoured)
    (hdue : s.vars.retryAfterOverride ≠ none → s'.stage.past = true ∨ Due s')
    (hfresh : s'.stage ≠ .resolving) : s'.Paced := by
  obtain ⟨hshort, hvalue, hrun, howed⟩ := pacing_eq hpacing
  refine ⟨?_, ?_, ?_, hcarried, ?_, fun hresolving => absurd hresolving hfresh⟩
  · rw [hshort, hrun, h.short]
  · rw [hvalue, howed, h.owed]
  · rw [hvalue]
    exact h.honoured
  · rw [hvalue]
    exact hdue

theorem plain_ne_resolving {stage : Stage} (h : stage.plain = true) : stage ≠ .resolving := by
  rintro rfl
  cases h

theorem shortRun_append (trace : List Effect) (e : Effect) :
    shortRun (trace ++ [e]) = countShort (shortRun trace) e := by
  rw [shortRun, shortRun, List.foldl_append]
  rfl

theorem owed_append (trace : List Effect) (e : Effect) :
    Watch.owed (trace ++ [e]) = owe (Watch.owed trace) e := by
  rw [Watch.owed, Watch.owed, List.foldl_append]
  rfl

/-- The end of a session. -/
theorem Paced.ended (h : s.Paced) {outcome : ConnectionOutcome} (hstage : s.stage = .ended outcome)
    (short : Bool) : (s.stepEnded c outcome short).Paced := by
  have hnone := h.settled (hstage ▸ rfl) (hstage ▸ nofun)
  obtain ⟨counted, hcounted⟩ : ∃ counted, (s.setVars { s.vars with
      shortSessions := if short then saturatingSucc32 s.vars.shortSessions else 0 }).emit
    (.ended outcome short) = counted := ⟨_, rfl⟩
  have hstep : s.stepEnded c outcome short = counted.classify c outcome := by
    rw [← hcounted]
    rfl
  have htrace : counted.trace = s.trace ++ [.ended outcome short] := by
    rw [← hcounted]
    rfl
  have hclear : counted.vars.retryAfterOverride = none := by
    rw [← hcounted]
    exact hnone
  have hshort : counted.vars.shortSessions = min (shortRun counted.trace) (2 ^ 32 - 1) := by
    rw [htrace, shortRun_append, ← hcounted]
    show (if short then saturatingSucc32 s.vars.shortSessions else 0) = _
    rw [h.short]
    cases short with
    | true =>
      show min (min (shortRun s.trace) (2 ^ 32 - 1) + 1) (2 ^ 32 - 1) =
        min (shortRun s.trace + 1) (2 ^ 32 - 1)
      omega
    | false => rfl
  obtain ⟨hpacing, hplain, hdue⟩ := classify_pacing (c := c) hclear outcome
  simp only [pacing, Prod.mk.injEq] at hpacing
  obtain ⟨hcount, hvalue, hfilter⟩ := hpacing
  have hgranted : ∀ d ∈ granted outcome, d ≤ maxHonoured := by
    intro d hd
    refine h.carried d ?_
    rw [hstage]
    cases outcome with
    | httpStatus status body requestId retryAfter =>
      by_cases hbusy : status = 429 ∨ status = 503
      · rw [granted, if_pos hbusy] at hd
        exact hd
      · rw [granted, if_neg hbusy] at hd
        cases hd
    | _ => cases hd
  rw [hstep]
  refine ⟨?_, ?_, ?_, ?_, ?_, ?_⟩
  · rw [hcount, hshort, ← shortRun_paces (counted.classify c outcome).trace, hfilter, shortRun_paces]
  · rw [hvalue, ← owed_paces, hfilter, owed_paces, htrace, owed_append]
    rfl
  · rw [hvalue]
    exact hgranted
  · intro d hd
    rcases hplain with htop | hplain
    · rw [htop] at hd
      cases hd
    · rw [carried_plain hplain] at hd
      cases hd
  · rw [hvalue]
    exact fun hne => .inr (hdue hne)
  · intro hresolving
    rcases hplain with htop | hplain
    · rw [htop] at hresolving
      cases hresolving
    · exact absurd hresolving (plain_ne_resolving hplain)

theorem Paced.turn (h : s.Paced) (hstage : s.stage = .top) (jitter : Nat) :
    (s.stepTop c jitter).Paced := by
  rcases stepTop_cases (c := c) s jitter with hleave | ⟨hopen, hpolicy, hback⟩ |
    ⟨policy, rest, hpolicy, htrace, hcalm⟩
  · have hcalm : Calm s.pacing (s.leave c) := calm_leave rfl
    have hpast : (s.leave c).stage.past = true := by
      unfold leave
      split <;> rfl
    rw [hleave]
    refine h.keep hcalm.pacing ?_ (fun _ => .inl hpast) (plain_ne_resolving hcalm.plain)
    rw [carried_plain hcalm.plain]
    rintro _ ⟨⟩
  · have hcalm : Calm s.pacing (s.afterBackoff c) := calm_afterBackoff rfl
    rw [hback]
    refine h.keep hcalm.pacing ?_ ?_ (plain_ne_resolving hcalm.plain)
    · rw [carried_plain hcalm.plain]
      rintro _ ⟨⟩
    · intro hne
      rcases h.due hne with hpast | ⟨-, hterminal | hexponential⟩
      · rw [hstage] at hpast
        cases hpast
      · rw [hopen] at hterminal
        cases hterminal
      · rw [hpolicy] at hexponential
        cases hexponential
  · have hpacing := hcalm.pacing
    simp only [pacing, Prod.mk.injEq] at hpacing
    obtain ⟨hcount, hvalue, hfilter⟩ := hpacing
    refine ⟨?_, ?_, ?_, ?_, ?_, ?_⟩
    · rw [hcount, h.short, ← shortRun_paces (s.stepTop c jitter).trace, hfilter, shortRun_append,
        shortRun_paces]
      rfl
    · rw [hvalue, ← owed_paces, hfilter, owed_append]
      rfl
    · rw [hvalue]
      rintro _ ⟨⟩
    · rw [carried_plain hcalm.plain]
      rintro _ ⟨⟩
    · exact fun hne => absurd hvalue hne
    · exact fun hresolving => absurd hresolving (plain_ne_resolving hcalm.plain)

theorem Paced.step (h : s.Paced) (hs : step c s e = some s') : s'.Paced := by
  cases step_pace hs with
  | still stage vars trace =>
    have hpacing : s'.pacing = s.pacing := by rw [pacing, pacing, vars, trace]
    obtain ⟨hshort, hvalue, hrun, howed⟩ := pacing_eq hpacing
    refine ⟨?_, ?_, ?_, ?_, ?_, ?_⟩
    · rw [hshort, hrun, h.short]
    · rw [hvalue, howed, h.owed]
    · rw [hvalue]
      exact h.honoured
    · rw [stage]
      exact h.carried
    · intro hne
      rw [hvalue] at hne
      rcases h.due hne with hpast | hdue
      · exact .inl (stage ▸ hpast)
      · right
        rw [Due, stage, vars]
        exact hdue
    · rw [stage, trace]
      exact h.fresh
  | begun stage top hpacing =>
    simp only [pacing, Prod.mk.injEq] at hpacing
    obtain ⟨hcount, hvalue, hfilter⟩ := hpacing
    rw [h.fresh stage] at hfilter
    refine ⟨?_, ?_, ?_, ?_, fun hne => absurd hvalue hne, ?_⟩
    · rw [hcount, ← shortRun_paces, hfilter]
      rfl
    · rw [hvalue, ← owed_paces, hfilter]
      rfl
    · rw [hvalue]
      rintro _ ⟨⟩
    · rw [top]
      rintro _ ⟨⟩
    · rw [top]
      rintro ⟨⟩
  | turned jitter stage => exact h.turn stage jitter
  | closed outcome short stage => exact h.ended stage short
  | answered stage hpacing body honoured =>
    refine h.keep hpacing ?_ ?_ ?_
    · rw [body]
      exact honoured
    · intro hne
      exact absurd (h.settled (stage ▸ rfl) (by rw [stage]; rintro ⟨⟩)) hne
    · rw [body]
      rintro ⟨⟩
  | refused stage hpacing ended =>
    refine h.keep hpacing ?_ ?_ ?_
    · rw [ended]
      have hcarried := h.carried
      rw [stage] at hcarried
      exact hcarried
    · intro hne
      exact absurd (h.settled (stage ▸ rfl) (by rw [stage]; rintro ⟨⟩)) hne
    · rw [ended]
      rintro ⟨⟩
  | moved stage past calm =>
    refine h.keep calm.pacing ?_ ?_ (plain_ne_resolving calm.plain)
    · rw [carried_plain calm.plain]
      rintro _ ⟨⟩
    · intro hne
      rcases h.due hne with hpast | hdue
      · exact .inl (past hpast)
      · exact absurd hdue.1 stage

theorem run_paced {held : Option State.Checkpoint} {inputs : List Input}
    (h : Machine.run (System.step c) (System.start held) inputs = some s) : s.Paced :=
  Machine.run_invariant (fun _ _ _ hmid hstep => hmid.step hstep) h (.start held)

/-- The delay of a reconnect, by what the run owes it and the short sessions before it. With nothing
owed it is the backoff of the policy, after short sessions that of the exponential one. -/
def Waits (s : System) (jitter : Nat) (policy : ReconnectPolicy) (delay : Nat) : Prop :=
  (∀ d, Watch.owed s.trace = some d → delay = d ∧ delay ≤ seconds 300) ∧
  (Watch.owed s.trace = none → delay ≤ seconds 30 ∧
    delay = computeBackoff jitter (backoffOf s.vars policy).1 (backoffOf s.vars policy).2 ∧
    (policy = .immediate →
      (shortRun s.trace = 0 → delay = 0) ∧
      (0 < shortRun s.trace → delay < shortWindow (shortRun s.trace) ∧
        (delay = 0 ↔ shortWindow (shortRun s.trace) ∣ jitter))))

theorem Paced.waits (h : s.Paced) (jitter : Nat) (policy : ReconnectPolicy) :
    s.Waits jitter policy (s.vars.delay jitter policy) := by
  refine ⟨fun d hd => ?_, fun hnone => ?_⟩
  · have hvalue : s.vars.retryAfterOverride = some d := h.owed.trans hd
    have hdelay : s.vars.delay jitter policy = d := by rw [Supervisor.delay, hvalue]; rfl
    rw [hdelay]
    exact ⟨rfl, h.honoured d hvalue⟩
  · have hvalue : s.vars.retryAfterOverride = none := h.owed.trans hnone
    have hdelay : s.vars.delay jitter policy = computeBackoff jitter (backoffOf s.vars policy).1
        (backoffOf s.vars policy).2 := by rw [Supervisor.delay, hvalue]; rfl
    rw [hdelay]
    refine ⟨computeBackoff_le _ _ _, rfl, ?_⟩
    rintro rfl
    have hshort := h.short
    refine ⟨fun hzero => ?_, fun hpos => ?_⟩
    · have hnot : ¬ (ReconnectPolicy.immediate = .immediate ∧ 0 < s.vars.shortSessions) := by
        rintro ⟨-, hsome⟩
        rw [hzero] at hshort
        omega
      rw [backoffOf, if_neg hnot]
      rfl
    · have hsome : ReconnectPolicy.immediate = .immediate ∧ 0 < s.vars.shortSessions :=
        ⟨rfl, by omega⟩
      have hwindow : shortWindow s.vars.shortSessions = shortWindow (shortRun s.trace) := by
        have hattempt : min (s.vars.shortSessions - 1) 20 = min (shortRun s.trace - 1) 20 := by
          omega
        rw [shortWindow, shortWindow, hattempt]
      rw [backoffOf, if_pos hsome, computeBackoff_window, hwindow]
      exact ⟨Nat.mod_lt _ (shortWindow_pos _), (Nat.dvd_iff_mod_eq_zero ..).symm⟩

/-- The pacing effects among the new ones are those the pacing gained. -/
theorem new_paces {new gained : List Effect} (htrace : s'.trace = s.trace ++ new)
    (hfilter : s'.trace.filter Effect.paces = s.trace.filter Effect.paces ++ gained) :
    new.filter Effect.paces = gained := by
  rw [htrace, List.filter_append] at hfilter
  exact List.append_cancel_left hfilter

theorem not_waited {new : List Effect} (h : new.filter Effect.paces = gained)
    (hgained : .backedOff delay ∉ gained) : .backedOff delay ∉ new := by
  intro hmem
  have hin : Effect.backedOff delay ∈ new.filter Effect.paces := List.mem_filter.mpr ⟨hmem, rfl⟩
  rw [h] at hin
  exact hgained hin

theorem stepEnded_filter (h : s.Paced) {outcome : ConnectionOutcome} (hstage : s.stage = .ended outcome)
    (short : Bool) : (s.stepEnded c outcome short).trace.filter Effect.paces =
      s.trace.filter Effect.paces ++ [.ended outcome short] := by
  have hnone := h.settled (hstage ▸ rfl) (hstage ▸ nofun)
  obtain ⟨hpacing, -⟩ := classify_pacing (c := c) (s := (s.setVars { s.vars with
      shortSessions := if short then saturatingSucc32 s.vars.shortSessions else 0 }).emit
    (.ended outcome short)) hnone outcome
  simp only [pacing, Prod.mk.injEq] at hpacing
  refine hpacing.2.2.trans ?_
  simp [emit, setVars, List.filter_append, Effect.paces]

/-- The only step that waits is a turn of the loop, and it waits as the run so far says. -/
theorem Paced.step_waits {new : List Effect} (h : s.Paced) (hs : System.step c s e = some s')
    (htrace : s'.trace = s.trace ++ new) (hwait : .backedOff delay ∈ new) :
    ∃ jitter policy rest, e = .jitter jitter ∧ s.vars.lastReconnectPolicy = some policy ∧
      new = .backedOff delay :: rest ∧ s.Waits jitter policy delay := by
  have hsame : s'.trace.filter Effect.paces = s.trace.filter Effect.paces → False := by
    intro hfilter
    exact not_waited (new_paces htrace (hfilter.trans (List.append_nil _).symm)) List.not_mem_nil hwait
  have hkept : s'.pacing = s.pacing → False := fun hpacing => hsame (congrArg (fun p => p.2.2) hpacing)
  cases step_pace hs with
  | still stage vars trace => exact (hsame (by rw [trace])).elim
  | begun stage top hpacing => exact (hsame (congrArg (fun p => p.2.2) hpacing)).elim
  | answered stage hpacing body honoured => exact (hkept hpacing).elim
  | refused stage hpacing ended => exact (hkept hpacing).elim
  | moved stage past calm => exact (hkept calm.pacing).elim
  | closed outcome short stage =>
    exact (not_waited (new_paces htrace (stepEnded_filter h stage short)) (by simp) hwait).elim
  | turned jitter stage =>
    rcases stepTop_cases (c := c) s jitter with hleave | ⟨-, -, hback⟩ |
      ⟨policy, rest, hpolicy, hwaited, hcalm⟩
    · have hcalm : Calm s.pacing (s.leave c) := calm_leave rfl
      rw [hleave] at hkept
      exact (hkept hcalm.pacing).elim
    · have hcalm : Calm s.pacing (s.afterBackoff c) := calm_afterBackoff rfl
      rw [hback] at hkept
      exact (hkept hcalm.pacing).elim
    · have hnew : new = .backedOff (s.vars.delay jitter policy) :: rest :=
        List.append_cancel_left (htrace.symm.trans hwaited)
      have hgained := new_paces htrace (congrArg (fun p => p.2.2) hcalm.pacing)
      have hin : Effect.backedOff delay ∈ new.filter Effect.paces := List.mem_filter.mpr ⟨hwait, rfl⟩
      rw [hgained] at hin
      have hdelay : delay = s.vars.delay jitter policy := by
        injection List.mem_singleton.mp hin
      rw [hdelay]
      exact ⟨jitter, policy, rest, rfl, hpolicy, hnew, h.waits jitter policy⟩

/-- A run that is over connects no more. -/
theorem step_past (hpast : s.stage.past = true) (hs : System.step c s e = some s') :
    ∃ new, s'.trace = s.trace ++ new ∧ ∀ effect ∈ new, effect.connects = false := by
  have hquiet : s'.trace = s.trace →
      ∃ new, s'.trace = s.trace ++ new ∧ ∀ effect ∈ new, effect.connects = false :=
    fun h => ⟨[], by rw [h, List.append_nil], nofun⟩
  have hone : ∀ effect, effect.connects = false → s'.trace = s.trace ++ [effect] →
      ∃ new, s'.trace = s.trace ++ new ∧ ∀ effect ∈ new, effect.connects = false := by
    intro effect hnot h
    refine ⟨[effect], h, fun other hother => ?_⟩
    rw [List.mem_singleton.mp hother]
    exact hnot
  unfold System.step at hs
  split at hs
  · split at hs <;> cases hs
    exact hquiet rfl
  · split at hs <;> cases hs
    exact hquiet rfl
  · cases hs
    exact hquiet rfl
  · cases hstage : s.stage with
    | flushing landed =>
      unfold stepStage at hs
      rw [hstage] at hs
      dsimp only at hs
      obtain ⟨pending, -, hs⟩ := Option.bind_eq_some_iff.mp hs
      unfold stepFlushing at hs
      split at hs
      · split at hs <;> cases hs
        exact hone _ rfl rfl
      · split at hs <;> cases hs
        exact hone _ rfl rfl
      · cases hs
        exact hone _ rfl rfl
      · cases hs
    | startupExpired =>
      unfold stepStage at hs
      rw [hstage] at hs
      dsimp only at hs
      unfold stepStartupExpired at hs
      split at hs
      · obtain ⟨mid, haccept, rfl⟩ := Option.map_eq_some_iff.mp hs
        have hmid : mid.trace = s.trace := by
          unfold accept at haccept
          split at haccept <;> cases haccept
          rfl
        refine hone (.reported startupTimedOut) rfl ?_
        show mid.trace ++ [_] = _
        rw [hmid]
      · split at hs <;> cases hs
        exact hquiet rfl
      · cases hs
    | done =>
      unfold stepStage at hs
      rw [hstage] at hs
      cases hs
    | _ =>
      rw [hstage] at hpast
      cases hpast

/-- While a value is owed, a wait of exactly that length comes before the next connection. -/
theorem Paced.step_owes {new : List Effect} (h : s.Paced) (hs : System.step c s e = some s')
    (htrace : s'.trace = s.trace ++ new) (hd : Watch.owed s.trace = some d) :
    (∃ rest, new = .backedOff d :: rest) ∨ ∀ effect ∈ new, effect.connects = false := by
  have hvalue : s.vars.retryAfterOverride = some d := h.owed.trans hd
  have hnothing : s'.trace = s.trace → ∀ effect ∈ new, effect.connects = false := by
    intro hsame effect hmem
    have hnil : new = [] := by
      rw [hsame] at htrace
      exact List.append_right_eq_self.mp htrace.symm
    rw [hnil] at hmem
    cases hmem
  rcases h.due (by rw [hvalue]; rintro ⟨⟩) with hpast | ⟨htop, hlost⟩
  · obtain ⟨new', htrace', hnot⟩ := step_past hpast hs
    have hsame : new = new' := List.append_cancel_left (htrace.symm.trans htrace')
    rw [hsame]
    exact .inr hnot
  · cases step_pace hs with
    | still stage vars trace => exact .inr (hnothing trace)
    | begun stage top hpacing =>
      rw [htop] at stage
      cases stage
    | answered stage hpacing body honoured =>
      rw [htop] at stage
      cases stage
    | refused stage hpacing ended =>
      rw [htop] at stage
      cases stage
    | moved stage past calm => exact absurd htop stage
    | closed outcome short stage =>
      rw [htop] at stage
      cases stage
    | turned jitter stage =>
      rcases stepTop_cases (c := c) s jitter with hleave | ⟨hopen, hpolicy, -⟩ |
        ⟨policy, rest, hpolicy, hwaited, -⟩
      · refine .inr (hnothing ?_)
        rw [hleave]
        unfold leave
        split <;> rfl
      · rcases hlost with hterminal | hexponential
        · rw [hopen] at hterminal
          cases hterminal
        · rw [hpolicy] at hexponential
          cases hexponential
      · have hdelay := ((h.waits jitter policy).1 d hd).1
        rw [hdelay] at hwaited
        exact .inl ⟨rest, List.append_cancel_left (htrace.symm.trans hwaited)⟩

end Law

/-- Over every run and for every jitter value: a wait is as long as the 429 or 503 before
it asked, at most 300 s, or else at most 30 s; an immediate reconnect does not wait after
a session of healthy length, and waits less than the window of `k` consecutive short
sessions after them, not at all only where the jitter is a multiple of the window; a
value asked for is waited before the next connection and, as no other wait follows
before another session has ended, before no later one. No arithmetic on the way fails. -/
theorem reconnect_delay (c : Setup) (held : Option State.Checkpoint) :
    Machine.Along (System.step c) (fun s e s' => ∀ new, s'.trace = s.trace ++ new →
      (∀ delay, .backedOff delay ∈ new → ∃ jitter policy rest, e = .jitter jitter ∧
        s.vars.lastReconnectPolicy = some policy ∧ new = .backedOff delay :: rest ∧
        s.Waits jitter policy delay) ∧
      ∀ d, Watch.owed s.trace = some d →
        (∃ rest, new = .backedOff d :: rest) ∨ ∀ effect ∈ new, effect.connects = false)
      (System.start held) ∧
    (∀ jitter attempt policy, computeBackoffChecked jitter attempt policy =
      some (computeBackoff jitter attempt policy)) ∧
    ∀ value untilDate d, parseRetryAfter value untilDate = some d → d ≤ seconds 300 := by
  refine ⟨?_, computeBackoffChecked_eq, fun value untilDate d h => parseRetryAfter_le h⟩
  intro inputs s e s' hrun hstep new htrace
  have hpaced := run_paced hrun
  exact ⟨fun delay hwait => hpaced.step_waits hstep htrace hwait,
    fun d hd => hpaced.step_owes hstep htrace hd⟩

/-- The server opens a stream and closes it at once. -/
def shortInputs : List Input := [.proceed, .jitter 0] ++ closingInputs ++ [.elapsed true]

/-- A session closed by the server within the minimum healthy duration is reconnected to
without any wait when the jitter is zero. -/
theorem reconnect_delay_short : ¬ ∀ (c : Setup) (held : Option State.Checkpoint),
    Machine.Along (System.step c) (fun s _ s' => ∀ new delay, s'.trace = s.trace ++ new →
      .backedOff delay ∈ new → s.vars.lastReconnectPolicy = some .immediate →
      Watch.owed s.trace = none → (delay = 0 ↔ shortRun s.trace = 0)) (System.start held) := by
  intro hclaim
  have hrun : (Machine.run (System.step closingSetup) (System.start none) shortInputs).any (fun s =>
      (match s.stage with
        | .top => true
        | _ => false) &&
      decide (s.vars.lastReconnectPolicy = some .immediate) && decide (Watch.owed s.trace = none) &&
      decide (shortRun s.trace = 1) && decide (s.vars.delay 0 .immediate = 0) &&
      decide (s.trace.length < (s.stepTop closingSetup 0).trace.length)) = true := by
    decide +kernel
  obtain ⟨s, hs, hfacts⟩ := (Option.any_eq_true _ _).mp hrun
  simp only [Bool.and_eq_true, decide_eq_true_eq] at hfacts
  obtain ⟨⟨⟨⟨⟨hstage, hpolicy⟩, howed⟩, hshort⟩, hdelay⟩, hlonger⟩ := hfacts
  have htop : s.stage = .top := by
    split at hstage
    · assumption
    · cases hstage
  have hstep : System.step closingSetup s (.jitter 0) = some (s.stepTop closingSetup 0) := by
    show s.stepStage closingSetup (.jitter 0) = _
    unfold stepStage
    rw [htop]
  rcases stepTop_cases (c := closingSetup) s 0 with hleave | ⟨-, hnone, -⟩ |
    ⟨policy, rest, hsome, hwaited, -⟩
  · rw [hleave] at hlonger
    unfold leave at hlonger
    split at hlonger <;> exact absurd hlonger (Nat.lt_irrefl _)
  · rw [hpolicy] at hnone
    cases hnone
  · rw [hpolicy] at hsome
    cases hsome
    have hzero := (hclaim closingSetup none shortInputs s (.jitter 0) _ hs hstep _ _ hwaited
      (List.mem_cons_self ..) hpolicy howed).mp hdelay
    rw [hshort] at hzero
    cases hzero

end System

end Aviso.Watch
