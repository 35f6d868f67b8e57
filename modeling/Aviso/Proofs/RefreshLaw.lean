import Aviso.Proofs.Cancellation
import Aviso.Proofs.AuthProtocol

namespace Aviso.Watch

open Lib (Machine)

namespace AuthPhase

/-- How many refreshes may come before the next end of a connection other than a 401. -/
def allowance : AuthPhase → Nat
  | .settled | .rejected => 1
  | .refreshed | .spent => 0

theorem next_allowance {a a' : AuthPhase} (h : a.next e = some a') (he : e ≠ .outcome) :
    [e].count .refresh + a'.allowance ≤ a.allowance := by
  cases e with
  | refresh => cases a <;> cases h; decide
  | attempt => cases a <;> cases h <;> decide
  | wait => cases a <;> cases h <;> decide
  | rejection => cases a <;> cases h <;> decide
  | outcome => exact absurd rfl he
  | error err =>
    cases a with
    | spent => cases (Option.ite_none_right_eq_some.mp h).2; exact Nat.le_refl 0
    | _ => cases h; exact Nat.le_refl _
  | parting => cases a <;> cases h <;> decide
  | other => cases a <;> cases h <;> decide

theorem run_allowance {a a' : AuthPhase} (h : Machine.run next a events = some a')
    (hevents : ∀ e ∈ events, e ≠ .outcome) :
    events.count .refresh + a'.allowance ≤ a.allowance := by
  induction events generalizing a with
  | nil =>
    cases h
    simp
  | cons e events ih =>
    obtain ⟨mid, hmid, hrest⟩ := Machine.run_cons h
    have hfirst := next_allowance hmid (hevents e (by simp))
    have hmore := ih hrest fun e' he' => hevents e' (by simp [he'])
    have hcount : ([e] ++ events).count .refresh = [e].count .refresh + events.count .refresh :=
      List.count_append
    rw [List.singleton_append] at hcount
    omega

/-- Once the credentials are rejected, an attempt comes after a refresh. -/
theorem run_attempt {a a' : AuthPhase} (ha : a = .rejected ∨ a = .spent)
    (h : Machine.run next a (between ++ .attempt :: after) = some a') : .refresh ∈ between := by
  induction between generalizing a with
  | nil =>
    obtain ⟨mid, hmid, -⟩ := Machine.run_cons h
    rcases ha with rfl | rfl <;> cases hmid
  | cons e between ih =>
    obtain ⟨mid, hmid, hrest⟩ := Machine.run_cons h
    by_cases he : e = .refresh
    · exact he ▸ List.mem_cons_self
    · refine List.mem_cons_of_mem e (ih ?_ hrest)
      rcases ha with rfl | rfl
      · cases e with
        | refresh => exact absurd rfl he
        | error err => cases hmid; exact .inl rfl
        | parting => cases hmid; exact .inl rfl
        | _ => cases hmid
      · cases e with
        | error err => cases (Option.ite_none_right_eq_some.mp hmid).2; exact .inr rfl
        | parting => cases hmid; exact .inr rfl
        | _ => cases hmid

/-- A rejection leaves the credentials rejected, for the first or the second time. -/
theorem next_rejection {a a' : AuthPhase} (h : a.next .rejection = some a') :
    a' = .rejected ∨ a' = .spent := by
  cases a <;> cases h
  · exact .inl rfl
  · exact .inr rfl

/-- What ends a watch that is over: the error of the second rejection and the parting. -/
def Final (e : AuthEvent) : Prop := e = .error rejectedAfterRefresh ∨ e = .parting

theorem run_over (h : Machine.run next .spent events = some a) : a = .spent ∧ ∀ e ∈ events, Final e := by
  induction events with
  | nil =>
    cases h
    exact ⟨rfl, nofun⟩
  | cons e events ih =>
    obtain ⟨mid, hmid, hrest⟩ := Machine.run_cons h
    have hfirst : mid = .spent ∧ Final e := by
      cases e with
      | error err =>
        obtain ⟨rfl, hover⟩ := Option.ite_none_right_eq_some.mp hmid
        cases hover
        exact ⟨rfl, .inl rfl⟩
      | parting => cases hmid; exact ⟨rfl, .inr rfl⟩
      | _ => cases hmid
    obtain ⟨rfl, hfinal⟩ := hfirst
    exact ⟨(ih hrest).1, List.forall_mem_cons.mpr ⟨hfinal, (ih hrest).2⟩⟩

/-- Only another end of a connection than a 401 settles the credentials again. -/
theorem next_unsettled {a a' : AuthPhase} (ha : a ≠ .settled) (h : a.next e = some a')
    (he : e ≠ .outcome) : a' ≠ .settled := by
  rintro rfl
  cases a with
  | settled => exact ha rfl
  | rejected => cases e <;> cases h
  | refreshed =>
    cases e with
    | outcome => exact he rfl
    | _ => cases h
  | spent =>
    cases e with
    | error err => cases (Option.ite_none_right_eq_some.mp h).2
    | _ => cases h

theorem run_unsettled {a a' : AuthPhase} (ha : a ≠ .settled) (h : Machine.run next a events = some a')
    (hevents : ∀ e ∈ events, e ≠ .outcome) : a' ≠ .settled := by
  induction events generalizing a with
  | nil =>
    cases h
    exact ha
  | cons e events ih =>
    obtain ⟨mid, hmid, hrest⟩ := Machine.run_cons h
    have hmid := next_unsettled ha hmid (hevents e (by simp))
    exact ih hmid hrest fun e' he' => hevents e' (by simp [he'])

/-- A second rejection with no other end of a connection in between is final. -/
theorem run_twice {a a' : AuthPhase} (ha : a = .rejected ∨ a = .spent)
    (h : Machine.run next a (between ++ .rejection :: after) = some a')
    (hbetween : ∀ e ∈ between, e ≠ .outcome) : a' = .spent ∧ ∀ e ∈ after, Final e := by
  obtain ⟨mid, hmid, hrest⟩ := Machine.run_append h
  obtain ⟨last, hlast, hend⟩ := Machine.run_cons hrest
  have hunsettled : mid ≠ .settled := by
    refine run_unsettled ?_ hmid hbetween
    rcases ha with rfl | rfl <;> exact nofun
  have hover : last = .spent := by
    cases mid with
    | settled => exact absurd rfl hunsettled
    | refreshed => cases hlast; rfl
    | _ => cases hlast
  exact run_over (hover ▸ hend)

end AuthPhase

/-- Between two ends of a connection other than a 401, the credentials are refreshed at most once. -/
def RefreshedOnce (t : List Effect) : Prop :=
  ∀ before between after, t = before ++ between ++ after → (∀ e ∈ between, e.auth ≠ .outcome) →
    (between.map Effect.auth).count .refresh ≤ 1

/-- Between a 401 and any later connection attempt the credentials are refreshed. -/
def RefreshedBetween (t : List Effect) : Prop :=
  ∀ before between after rejected attempt, t = before ++ rejected :: (between ++ attempt :: after) →
    rejected.auth = .rejection → attempt.auth = .attempt → ∃ e ∈ between, e.auth = .refresh

/-- After two 401s with no other end of a connection in between, only the error of the
second and the parting follow. -/
def RejectedTwice (t : List Effect) : Prop :=
  ∀ before between after first second, t = before ++ first :: (between ++ second :: after) →
    first.auth = .rejection → second.auth = .rejection → (∀ e ∈ between, e.auth ≠ .outcome) →
    authOf t = some .spent ∧ ∀ e ∈ after, AuthPhase.Final e.auth

section Laws

variable {t : List Effect}

theorem authOf_split (h : authOf (before ++ rest) = some a) :
    ∃ mid, Machine.run AuthPhase.next mid (rest.map Effect.auth) = some a := by
  unfold authOf at h
  rw [List.map_append] at h
  obtain ⟨mid, -, hrest⟩ := Machine.run_append h
  exact ⟨mid, hrest⟩

/-- The credentials after a 401 of a trace, and what follows it. -/
theorem authOf_rejection (h : authOf (before ++ e :: rest) = some a) (he : e.auth = .rejection) :
    ∃ mid, (mid = .rejected ∨ mid = .spent) ∧
      Machine.run AuthPhase.next mid (rest.map Effect.auth) = some a := by
  obtain ⟨start, hstart⟩ := authOf_split h
  rw [List.map_cons, he] at hstart
  obtain ⟨mid, hmid, hrest⟩ := Machine.run_cons hstart
  exact ⟨mid, AuthPhase.next_rejection hmid, hrest⟩

theorem refreshedOnce (h : authOf t = some a) : RefreshedOnce t := by
  rintro before between after rfl hbetween
  rw [List.append_assoc] at h
  obtain ⟨start, hstart⟩ := authOf_split h
  rw [List.map_append] at hstart
  obtain ⟨mid, hmid, -⟩ := Machine.run_append hstart
  have hcount := AuthPhase.run_allowance hmid (by simpa using hbetween)
  have hallowed : start.allowance ≤ 1 := by cases start <;> decide
  omega

theorem refreshedBetween (h : authOf t = some a) : RefreshedBetween t := by
  rintro before between after rejected attempt rfl hrejected hattempt
  obtain ⟨mid, hmid, hrest⟩ := authOf_rejection h hrejected
  rw [List.map_append, List.map_cons, hattempt] at hrest
  exact List.mem_map.mp (AuthPhase.run_attempt hmid hrest)

theorem rejectedTwice (h : authOf t = some a) : RejectedTwice t := by
  rintro before between after first second rfl hfirst hsecond hbetween
  obtain ⟨mid, hmid, hrest⟩ := authOf_rejection h hfirst
  rw [List.map_append, List.map_cons, hsecond] at hrest
  obtain ⟨rfl, hfinal⟩ := AuthPhase.run_twice hmid hrest (by simpa using hbetween)
  exact ⟨h, by simpa using hfinal⟩

end Laws

namespace Control

variable {c : Setup} {σ σ' : State}

/-- The phases a run can be in between a 401 and its refresh. -/
def Phase.keeps : Phase → Bool
  | .top | .checked | .refreshing | .reporting _ | .leaving | .flushing _ | .done => true
  | _ => false

theorem Phase.Fits.keeps (h : Phase.Fits phase v a) (hs : v.state.connectionStatus = .refreshingAuth) :
    phase.keeps = true := by
  cases phase with
  | starting => exact absurd hs h.2
  | resting => exact absurd hs h.2.2
  | connecting => exact absurd hs h.1
  | asking body => exact absurd hs h.1
  | opening => exact absurd hs h.1
  | streaming => exact absurd hs h.1
  | ended outcome => exact absurd hs h.1
  | _ => rfl

/-- An error on its way to the channel is sent or dropped, and the run is over. -/
theorem Step.reports (h : Step c σ σ') (hgated : Gated σ) (hp : σ.phase = .reporting e) :
    σ'.phase = .leaving ∧ (σ'.trace = σ.trace ∨ σ'.trace = σ.trace ++ [.reported e]) := by
  cases h with
  | cancel hwaits => exact ⟨rfl, .inl rfl⟩
  | report hreport =>
    cases hp.symm.trans hreport
    exact ⟨rfl, .inr rfl⟩
  | miss outcome hconnects _ => exact absurd ((congrArg Phase.connects hp).symm.trans hconnects) nofun
  | drop hopen _ => exact absurd ((congrArg Phase.connects hp).symm.trans (connects_of hopen)) nofun
  | close hopen => exact absurd ((congrArg Phase.connects hp).symm.trans (connects_of hopen)) nofun
  | stop hopen => exact absurd ((congrArg Phase.connects hp).symm.trans (connects_of hopen)) nofun
  | expire _ hready hexpire =>
    rcases hexpire with ⟨-, hreports⟩ | ⟨landed, hflushing⟩
    · exact absurd hp (hreports e)
    · have hpending := hgated.pending (hgated.flushing landed hflushing)
      rw [hready] at hpending
      cases hpending
  | _ => simp [hp] at *

/-- The run failed with `e` at `base`, and only the error and the parting followed. -/
structure Failed (e : ClientError) (base : List Effect) (σ : State) : Prop where
  gated : Gated σ
  ends : σ.phase = .reporting e ∨ σ.phase.exits = true
  tail : ∃ tail, σ.trace = base ++ tail ∧ ∀ x ∈ tail, x.auth = .error e ∨ x.auth = .parting

theorem Parting.auth (h : Parting e) : e.auth = .parting := by
  cases e with
  | ended outcome short =>
    cases outcome with
    | cancelled => rfl
    | _ => cases h
  | landed cp => rfl
  | put cp ok => rfl
  | _ => cases h

theorem Failed.step (h : Failed e base σ) (hs : Step c σ σ') : Failed e base σ' := by
  obtain ⟨hgated, hends, tail, htrace, htail⟩ := h
  have hsnoc (x : Effect) (hx : x.auth = .error e ∨ x.auth = .parting) :
      ∃ tail', σ.trace ++ [x] = base ++ tail' ∧ ∀ y ∈ tail', y.auth = .error e ∨ y.auth = .parting := by
    refine ⟨tail ++ [x], by rw [htrace, List.append_assoc], ?_⟩
    intro y hy
    rcases List.mem_append.mp hy with hy | hy
    · exact htail y hy
    · exact List.mem_singleton.mp hy ▸ hx
  rcases hends with hp | hexits
  · obtain ⟨hleaving, hsame | hsent⟩ := hs.reports hgated hp
    · exact ⟨hgated.step hs, .inr (congrArg Phase.exits hleaving), tail, hsame ▸ htrace, htail⟩
    · exact ⟨hgated.step hs, .inr (congrArg Phase.exits hleaving), hsent ▸ hsnoc _ (.inl rfl)⟩
  · have hdeparts := hs.departs hgated hexits
    rcases hdeparts.trace with hsame | ⟨x, hemitted, hparting⟩
    · exact ⟨hgated.step hs, .inr hdeparts.exits, tail, hsame ▸ htrace, htail⟩
    · exact ⟨hgated.step hs, .inr hdeparts.exits, hemitted ▸ hsnoc x (.inr hparting.auth)⟩

end Control

namespace System

variable {c : Setup} {s s' s'' : System}

/-- The reducer still owes the refresh, and no connection was attempted. -/
structure Owes (s s' : System) : Prop where
  status : s'.vars.state.connectionStatus = .refreshingAuth
  silent : ∃ tail, s'.trace = s.trace ++ tail ∧ ∀ e ∈ tail, e.auth ≠ .attempt

theorem Owes.same (hs : s.vars.state.connectionStatus = .refreshingAuth)
    (hstate : s'.vars.state = s.vars.state) (htrace : s'.trace = s.trace) : s.Owes s' :=
  ⟨hstate ▸ hs, [], by rw [htrace, List.append_nil], nofun⟩

theorem Owes.emit (hs : s.vars.state.connectionStatus = .refreshingAuth)
    (hstate : s'.vars.state = s.vars.state) (htrace : s'.trace = s.trace ++ [e])
    (he : e.auth ≠ .attempt) : s.Owes s' :=
  ⟨hstate ▸ hs, [e], htrace, fun _ hx => List.mem_singleton.mp hx ▸ he⟩

theorem state_leave : (s.leave c).vars.state = s.vars.state := by
  unfold leave
  split <;> rfl

theorem state_after (next : After) : (s.after c next).vars.state = s.vars.state := by
  cases next with
  | «break» => exact state_leave
  | _ => rfl

theorem trace_after (next : After) : (s.after c next).trace = s.trace := by
  cases next with
  | «break» => exact trace_leave
  | _ => rfl

theorem accept_same (h : s.accept c item = some s') : s'.vars = s.vars ∧ s'.trace = s.trace := by
  unfold accept at h
  split at h
  · cases h
    exact ⟨rfl, rfl⟩
  · cases h

/-- The turn of the loop after a 401: it calls the refresh, or leaves. -/
theorem stepTop_owes (hs : s.vars.state.connectionStatus = .refreshingAuth) (hauth : c.hasAuth = true)
    (hpolicy : s.vars.lastReconnectPolicy = none) (jitter : Nat) : s.Owes (s.stepTop c jitter) := by
  unfold stepTop
  split
  · exact .same hs state_leave trace_leave
  · split
    · exact .same hs state_leave trace_leave
    · rw [hpolicy]
      simp only [afterBackoff, hs, hauth, if_true]
      exact .emit hs rfl rfl nofun

theorem stepReporting_owes (hs : s.vars.state.connectionStatus = .refreshingAuth)
    (h : s.stepReporting c e next input = some s') : s.Owes s' := by
  unfold stepReporting at h
  split at h
  · cases h
    exact .same hs (state_after next) (trace_after next)
  · split at h
    · cases h
      exact .same hs (state_after next) (trace_after next)
    · cases h
  · obtain ⟨s₁, haccept, rfl⟩ := Option.map_eq_some_iff.mp h
    obtain ⟨hvars, htrace⟩ := accept_same haccept
    refine .emit (e := .reported e) hs ((state_after next).trans (congrArg Supervisor.state hvars)) ?_ nofun
    rw [trace_after]
    exact congrArg (· ++ [Effect.reported e]) htrace
  · cases h

theorem stepFlushing_owes (hs : s.vars.state.connectionStatus = .refreshingAuth)
    (h : s.stepFlushing landed pending input = some s') : s.Owes s' := by
  unfold stepFlushing at h
  split at h
  · split at h
    · cases h
    · cases h
      exact .emit hs rfl rfl nofun
  · split at h
    · cases h
      exact .emit hs rfl rfl nofun
    · cases h
  · cases h
    exact .emit hs rfl rfl nofun
  · cases h

theorem stepStartupExpired_owes (hs : s.vars.state.connectionStatus = .refreshingAuth)
    (h : s.stepStartupExpired c input = some s') : s.Owes s' := by
  unfold stepStartupExpired at h
  split at h
  · obtain ⟨s₁, haccept, rfl⟩ := Option.map_eq_some_iff.mp h
    obtain ⟨hvars, htrace⟩ := accept_same haccept
    exact .emit (e := .reported startupTimedOut) hs (congrArg Supervisor.state hvars) (congrArg (· ++ [_]) htrace) nofun
  · split at h
    · cases h
      exact .same hs rfl rfl
    · cases h
  · cases h

/-- The refresh a 401 asks for stays owed until it was performed. -/
theorem stage_owes (hauthed : Control.Authed (s.control [])) (hauth : c.hasAuth = true)
    (hs : s.vars.state.connectionStatus = .refreshingAuth) (h : s.stepStage c input = some s') :
    s.Owes s' ∨ (s.stage = .refreshing ∧ ∃ result, input = .refreshed result) := by
  obtain ⟨a, -, hfits⟩ := hauthed.stands
  have hkeeps : s.stage.control.keeps = true := hfits.keeps hs
  unfold stepStage at h
  split at h
  case h_2 hstage =>
    refine .inl ?_
    have htop : s.stage.control = .top := congrArg Stage.control hstage
    replace hfits : Control.Phase.Fits .top s.vars a := htop ▸ hfits
    rcases hfits with ⟨-, ⟨-, hnot⟩ | ⟨-, -, hpolicy⟩⟩
    · exact absurd hs hnot
    · split at h
      · cases h
        exact stepTop_owes hs hauth hpolicy _
      · cases h
  case h_4 hstage =>
    unfold stepRefreshing at h
    split at h
    · cases h
      exact .inl (.same hs state_leave trace_leave)
    · exact .inr ⟨hstage, _, rfl⟩
    · exact .inr ⟨hstage, _, rfl⟩
    · cases h
  case h_15 outcome hstage =>
    refine .inl ?_
    rw [hstage] at hkeeps
    cases outcome with
    | cancelled =>
      split at h
      · cases h
        exact .emit (e := .ended .cancelled _) hs (state_leave (c := c)) (trace_leave (c := c)) nofun
      · cases h
    | _ => cases hkeeps
  case h_16 e next hstage => exact .inl (stepReporting_owes hs h)
  case h_17 landed hstage =>
    obtain ⟨pending, -, h⟩ := Option.bind_eq_some_iff.mp h
    exact .inl (stepFlushing_owes hs h)
  case h_18 hstage => exact .inl (stepStartupExpired_owes hs h)
  case h_19 hstage => cases h
  case h_8 conn hstage =>
    rw [hstage] at hkeeps
    rcases readingPhase_cases conn with hp | hp
    · exact absurd ((congrArg Control.Phase.keeps hp).symm.trans hkeeps) nofun
    · exact absurd ((congrArg Control.Phase.keeps hp).symm.trans hkeeps) nofun
  case h_9 conn chunk hstage =>
    rw [hstage] at hkeeps
    rcases readingPhase_cases conn with hp | hp
    · exact absurd ((congrArg Control.Phase.keeps hp).symm.trans hkeeps) nofun
    · exact absurd ((congrArg Control.Phase.keeps hp).symm.trans hkeeps) nofun
  all_goals
    rename_i hstage
    rw [hstage] at hkeeps
    cases hkeeps

theorem step_owes (hauthed : Control.Authed (s.control [])) (hauth : c.hasAuth = true)
    (hs : s.vars.state.connectionStatus = .refreshingAuth) (h : step c s input = some s') :
    s.Owes s' ∨ (s.stage = .refreshing ∧ ∃ result, input = .refreshed result) := by
  unfold step at h
  split at h
  · split at h
    · cases h
      exact .inl (.same hs rfl rfl)
    · cases h
  · split at h
    · cases h
    · cases h
      exact .inl (.same hs rfl rfl)
  · cases h
    exact .inl (.same hs rfl rfl)
  · exact stage_owes hauthed hauth hs h

theorem run_authed (hauth : c.hasAuth = true) (h : Machine.run (step c) (start held) inputs = some s) :
    s.stage.Tidy ∧ Control.Authed (s.control []) := by
  have hsteps := run_control [] h trivial
  obtain ⟨hgated, hfresh, hstands⟩ := Lib.star_invariant (P := Control.Authed)
    (fun _ _ hσ => hσ.step hauth) hsteps .initial
  exact ⟨(run_gated h).1, (run_gated h).2 [], hfresh, hstands⟩

/-- The run is about to send `e` to the consumer, or over. -/
def Fails (e : ClientError) (s : System) : Prop :=
  s.stage.control = .reporting e ∨ s.stage.control.exits = true

/-- A run over a second 401 reports it and leaves. -/
theorem authed_over (h : Control.Authed (s.control [])) (hover : authOf s.trace = some .spent) :
    s.Fails rejectedAfterRefresh := by
  obtain ⟨a, hstands, hfits⟩ := h.stands
  cases hover.symm.trans hstands
  exact hfits.spent

/-- A refresh that fails ends the run with its error. -/
theorem refresh_failed (hstage : s.stage = .refreshing)
    (h : step c s (.refreshed (.error e)) = some s') (htidy : s.stage.Tidy) (hgated : Control.Gated (s'.control []))
    (hafter : Machine.run (step c) s' rest = some s'') :
    s'.stage = .reporting e .break ∧ Control.Failed e s.trace (s''.control (signs c s' rest)) := by
  have hnext : s' = (s.apply (.authRefreshCompleted false)).fail e := by
    simp only [step, stepStage, hstage, stepRefreshing, Option.some.injEq] at h
    exact h.symm
  have hstart : Control.Failed e s.trace (s'.control []) :=
    ⟨hgated, .inl (hnext ▸ rfl), [], by rw [hnext]; simp [control, fail, goto, apply, setVars], nofun⟩
  have hsteps := run_control [] hafter (step_tidy htidy h)
  exact ⟨hnext ▸ rfl, Lib.star_invariant (P := Control.Failed e s.trace) (fun _ _ hσ => hσ.step) hsteps hstart⟩

/-- The 401 protocol of a watch: one refresh between a 401 and the next attempt and no
other one; a second 401 ends the watch, and so does a refresh that fails; and a refresh
once asked for stays owed until it was performed. -/
theorem auth_protocol (c : Setup) (held : Option State.Checkpoint) (inputs : List Input) (s : System)
    (hauth : c.hasAuth = true) (h : Machine.run (step c) (start held) inputs = some s) :
    RefreshedOnce s.trace ∧ RefreshedBetween s.trace ∧ RejectedTwice s.trace ∧
      (authOf s.trace = some .spent → s.Fails rejectedAfterRefresh) ∧
      (∀ e s' rest s'', s.stage = .refreshing → step c s (.refreshed (.error e)) = some s' →
        Machine.run (step c) s' rest = some s'' → s''.Fails e ∧
          ∃ tail, s''.trace = s.trace ++ tail ∧ ∀ x ∈ tail, x.auth = .error e ∨ x.auth = .parting) ∧
      (∀ input s', step c s input = some s' → s.vars.state.connectionStatus = .refreshingAuth →
        s.Owes s' ∨ (s.stage = .refreshing ∧ ∃ result, input = .refreshed result)) := by
  obtain ⟨htidy, hauthed⟩ := run_authed hauth h
  obtain ⟨a, hstands, -⟩ := hauthed.stands
  refine ⟨refreshedOnce hstands, refreshedBetween hstands, rejectedTwice hstands, authed_over hauthed, ?_, ?_⟩
  · intro e s' rest s'' hstage hstep hafter
    have hgated := (run_gated (Machine.run_snoc h hstep)).2 []
    obtain ⟨-, hfailed⟩ := refresh_failed hstage hstep htidy hgated hafter
    exact ⟨hfailed.ends, hfailed.tail⟩
  · intro input s' hstep hs
    exact step_owes hauthed hauth hs hstep

def providedSetup : Setup where
  request := ⟨"mars".toList, [], none, none, .watch, [], false⟩
  serde := sampleSerde
  hasStore := false
  hasAuth := true
  flushCursorOnExit := false
  endpointError := none

/-- One connection that is answered with 401. -/
def rejectedInputs : List Input :=
  [.header (.ok ()), .response ⟨401, none, none, none, fun _ => none⟩, .body [], .elapsed true]

/-- The server rejects the credentials, and rejects them again once they are refreshed. -/
def twiceInputs : List Input :=
  .proceed :: .jitter 0 :: rejectedInputs ++ .jitter 0 :: .refreshed (.ok ()) :: rejectedInputs

theorem auth_protocol_twice : ∃ s,
    Machine.run (step providedSetup) (start none) twiceInputs = some s ∧
      (s.trace.map Effect.auth).count .refresh = 1 ∧ s.Fails rejectedAfterRefresh := by
  have hrun : (Machine.run (step providedSetup) (start none) twiceInputs).map
      (fun s => ((s.trace.map Effect.auth).count .refresh, authOf s.trace)) = some (1, some .spent) := by
    decide +kernel
  obtain ⟨s, hs, hauth⟩ := Option.map_eq_some_iff.mp hrun
  obtain ⟨hcount, hover⟩ := Prod.mk.inj hauth
  obtain ⟨-, -, -, hfails, -⟩ := auth_protocol providedSetup none twiceInputs s rfl hs
  exact ⟨s, hs, hcount, hfails hover⟩

end System

end Aviso.Watch
