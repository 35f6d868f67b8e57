import Aviso.Ffi.Facade
import Aviso.Proofs.WatchHandle

namespace Aviso.Ffi

variable {σ ι κ φ ρ : Type}

namespace AvisoWatch

variable {t : Task σ ι κ φ ρ} {w w' : AvisoWatch σ κ φ ρ}

/-- What is known once a wait was answered: the task has ended, or blocking on it has panicked. -/
def Settled (w : AvisoWatch σ κ φ ρ) : Prop := w.stage.ended = true ∨ w.poisoned = true

/-- A call of wait goes on: it blocks on the task, or returns with what is settled. -/
structure Turned (w : AvisoWatch σ κ φ ρ) (i : Nat) (x : Waiter) (w' : AvisoWatch σ κ φ ρ) : Prop where
  waiting : ∃ old, w.waiters[i]? = some old ∧ old.pending = true
  waiters : w'.waiters = w.waiters.set i x
  stage : w'.stage = w.stage
  notifying : w'.notifying = w.notifying
  freed : w'.freed = w.freed
  poisoned : w.poisoned = true → w'.poisoned = true
  told : ∀ result, x = .returned result → result ≠ .invalidUsage ∧ w'.Settled
  kept : ∀ m ∈ w.trace, m ∈ w'.trace
  ends : ∀ outcome, .endStarted outcome ∈ w'.trace → .endStarted outcome ∈ w.trace

theorem turned_release {i : Nat} {old : Waiter} {result : WaitResult} {joined poisoned : Bool}
    (hold : w.waiters[i]? = some old) (hpending : old.pending = true) (hresult : result ≠ .invalidUsage)
    (hpoisoned : w.poisoned = true → poisoned = true) (hsettled : w.stage.ended = true ∨ poisoned = true) :
    Turned w i (.returned result) { w.release i result with joined := joined, poisoned := poisoned } where
  waiting := ⟨old, hold, hpending⟩
  waiters := rfl
  stage := rfl
  notifying := rfl
  freed := rfl
  poisoned := hpoisoned
  told := by
    intro result' heq
    cases heq
    exact ⟨hresult, hsettled⟩
  kept := fun m hm => List.mem_append_left _ hm
  ends := by
    intro outcome hmem
    simpa [release] using hmem

theorem ended_of_joined (hs : w.Sound) (hjoined : w.joined = true) : w.stage.ended = true := by
  rcases hs.joined hjoined with hover | ⟨hover, -⟩
  · rw [hover]
    rfl
  · rw [hover]
    rfl

theorem lock_turned (hs : w.Sound) (h : w.lock i = some w') : ∃ x, Turned w i x w' := by
  unfold lock at h
  split at h
  · rename_i hcan
    split at h
    · rename_i hpoisoned
      cases h
      exact ⟨_, turned_release hcan.1 rfl (by simp) id (.inr hpoisoned)⟩
    · split at h
      · rename_i hjoined
        cases h
        exact ⟨_, turned_release hcan.1 rfl (by simp) id (.inl (ended_of_joined hs hjoined))⟩
      · cases h
        exact ⟨.joining, ⟨_, hcan.1, rfl⟩, rfl, rfl, rfl, rfl, id, by simp, fun _ hm => hm, fun _ hm => hm⟩
  · cases h

theorem join_turned (h : w.join i = some w') : ∃ x, Turned w i x w' := by
  unfold join at h
  split at h
  · rename_i hjoining
    cases hstage : w.stage with
    | finished =>
      simp only [hstage, Option.some.injEq] at h
      subst h
      exact ⟨_, turned_release hjoining rfl (by simp) id (.inl (by rw [hstage]; rfl))⟩
    | panicked =>
      simp only [hstage, Option.some.injEq] at h
      subst h
      exact ⟨_, turned_release hjoining rfl (by simp) id (.inl (by rw [hstage]; rfl))⟩
    | _ => simp [hstage] at h
  · cases h

theorem unwind_turned (h : step t w (.unwind i) = some w') : ∃ x, Turned w i x w' := by
  simp only [step] at h
  split at h
  · rename_i hjoining
    cases h
    exact ⟨_, turned_release hjoining rfl (by simp) (fun _ => rfl) (.inr rfl)⟩
  · cases h

/-- A step of the task leaves the calls at the handle alone. -/
theorem moved_keeps (h : Moved t w w') :
    w'.waiters = w.waiters ∧ w'.notifying = w.notifying ∧ w'.freed = w.freed ∧ w'.poisoned = w.poisoned ∧
      w.stage.ended = false ∧ (w.stage.past = true → w'.stage.past = true) ∧ ∀ m ∈ w.trace, m ∈ w'.trace := by
  obtain ⟨stage, m, permit, hmove, -, rfl⟩ := h
  refine ⟨rfl, rfl, rfl, rfl, ?_, hmove.past, fun m hm => List.mem_append_left _ hm⟩
  obtain ⟨hfinished, hpanicked⟩ := hmove.not_over
  cases hstage : w.stage with
  | finished => exact absurd hstage hfinished
  | panicked => exact absurd hstage hpanicked
  | _ => rfl

/-- No callback is started between the two. -/
def Silent (w w' : AvisoWatch σ κ φ ρ) : Prop := ∃ later, w'.trace = w.trace ++ later ∧ ∀ call, .started call ∉ later

theorem Silent.refl (w : AvisoWatch σ κ φ ρ) : Silent w w := ⟨[], (List.append_nil _).symm, by simp⟩

theorem Silent.trans {u : AvisoWatch σ κ φ ρ} (h : Silent w w') (h' : Silent w' u) : Silent w u := by
  obtain ⟨later, htrace, hquiet⟩ := h
  obtain ⟨later', htrace', hquiet'⟩ := h'
  refine ⟨later ++ later', by rw [htrace', htrace, List.append_assoc], ?_⟩
  intro call hmem
  rcases List.mem_append.mp hmem with hmem | hmem
  · exact hquiet call hmem
  · exact hquiet' call hmem

/-- A loop that has ended starts no callback. -/
theorem moved_silent (h : Moved t w w') (hpast : w.stage.past = true) : Silent w w' := by
  obtain ⟨stage, m, permit, hmove, -, heq⟩ := h
  subst heq
  refine ⟨m.toList, rfl, ?_⟩
  intro call hmem
  generalize w.stage = source at hmove hpast
  cases hmove with
  | calls => cases hpast
  | _ => simp at hmem

theorem handle_silent (h : HandleMove w w') : w'.stage = w.stage ∧ Silent w w' := by
  cases h with
  | notified => exact ⟨rfl, .refl w⟩
  | waits => exact ⟨rfl, .refl w⟩
  | locks => exact ⟨rfl, .refl w⟩
  | _ => exact ⟨rfl, _, rfl, by simp⟩

theorem step_silent {event : WatchEvent σ} (h : step t w event = some w') (hpast : w.stage.past = true) :
    w'.stage.past = true ∧ Silent w w' := by
  rcases step_cases h with ⟨-, hmoved⟩ | ⟨-, hmove⟩
  · exact ⟨(moved_keeps hmoved).2.2.2.2.2.1 hpast, moved_silent hmoved hpast⟩
  · obtain ⟨hstage, hsilent⟩ := handle_silent hmove
    exact ⟨hstage ▸ hpast, hsilent⟩

end AvisoWatch

namespace Facade

open AvisoWatch (Settled Turned Silent)

/-- No call at the handle waits. -/
def Quiet (w : AvisoWatch σ κ φ ρ) : Prop := ∀ waiter ∈ w.waiters, waiter.pending = false

/-- How far a `finish` has come: it alone uses the handle, and when it has waited all is settled. -/
def FinishStage.Reached (w : AvisoWatch σ κ φ ρ) : FinishStage → Prop
  | .stopping => w.notifying = 1 ∧ Quiet w
  | .stopped => w.notifying = 0 ∧ Quiet w
  | .waiting i => w.notifying = 0 ∧ i < w.waiters.length ∧
    (∀ j waiter, w.waiters[j]? = some waiter → waiter.pending = true → j = i) ∧
    w.waiters[i]? ≠ some (.returned .invalidUsage)
  | .drained result => w.notifying = 0 ∧ Quiet w ∧ (result ≠ .invalidUsage → Settled w) ∧
    (result = .invalidUsage → .waited .invalidUsage ∈ w.trace)

/-- A callback that says `false` ends the loop, whatever the loop keeps. -/
def Declines (t : Task σ ι κ φ ρ) : Prop :=
  ∀ kept call, ∃ reason, t.onReply kept call (.answered false) = .error reason

theorem runWatch_declines {ν : Type} (display : Watch.ClientError → Text)
    (answers : Nat → Watch.Poll (Option (Except Watch.ClientError ν))) : Declines (runWatch display answers) :=
  fun _ _ => ⟨_, rfl⟩

theorem runWatchMany_declines {ν : Type} (display : Watch.ClientError → Text) (count : Nat)
    (answers : Nat → Nat → Watch.Poll (Option (Except Watch.ClientError ν))) :
    Declines (runWatchMany display count answers) := by
  intro kept call
  cases call with
  | onNotification name notification => exact ⟨_, rfl⟩
  | onError failure => exact ⟨_, rfl⟩

namespace Running

variable {t : Task σ ι κ φ ρ} {callback : κ → Text} {r r' : Running σ κ φ ρ}

/-- What holds of a watch and its state: the state goes only when nothing can use it any more, or
is leaked when nobody could wait; and an exception of the handler ends the watch and is reported. -/
structure Sound (r : Running σ κ φ ρ) : Prop where
  core : r.core.Sound
  told : ∀ result, .returned result ∈ r.core.waiters → result ≠ .invalidUsage → r.core.Settled
  finishing : ∀ f, r.finishing = some f → r.core.freed = false ∧ f.stage.Reached r.core
  freed : r.stateFreed = true → r.core.Settled
  disposed : r.core.freed = (r.stateFreed || r.stateLeaked)
  once : (r.stateFreed && r.stateLeaked) = false
  leaked : r.stateLeaked = true → .waited .invalidUsage ∈ r.core.trace
  thrown : r.callbackError.isSome = true → r.core.stage.past = true
  reported : ∀ outcome, .endStarted outcome ∈ r.core.trace → r.reported = some (endError r.callbackError outcome)

theorem Sound.start (built : Except AvisoOutcome Unit) : (start built : Running σ κ φ ρ).Sound where
  core := .spawn built
  told := by simp [Running.start, AvisoWatch.spawn]
  finishing := by simp [Running.start]
  freed := by simp [Running.start]
  disposed := rfl
  once := rfl
  leaked := by simp [Running.start]
  thrown := by simp [Running.start]
  reported := by simp [Running.start, AvisoWatch.spawn]

theorem quiet_pending {w : AvisoWatch σ κ φ ρ} (h : Quiet w) {i : Nat} {waiter : Waiter}
    (hi : w.waiters[i]? = some waiter) :
    waiter.pending = false :=
  h waiter (List.mem_of_getElem? hi)

/-- A call of wait that goes on does not hinder a `finish`, unless it is its own. -/
theorem reached_turned {w w' : AvisoWatch σ κ φ ρ} {x : Waiter} (h : Turned w i x w') {stage : FinishStage}
    (hreached : stage.Reached w) : stage.Reached w' := by
  obtain ⟨old, hold, hpending⟩ := h.waiting
  cases stage with
  | stopping =>
    have hquiet := quiet_pending hreached.2 hold
    rw [hpending] at hquiet
    cases hquiet
  | stopped =>
    have hquiet := quiet_pending hreached.2 hold
    rw [hpending] at hquiet
    cases hquiet
  | waiting j =>
    obtain ⟨hnotifying, hlt, honly, hvalid⟩ := hreached
    refine ⟨h.notifying.trans hnotifying, ?_, ?_, ?_⟩
    · rwa [h.waiters, List.length_set]
    · intro k waiter hk hwaiter
      rw [h.waiters, List.getElem?_set] at hk
      split at hk
      · rename_i heq
        exact heq ▸ honly i old hold hpending
      · exact honly k waiter hk hwaiter
    · have hij := honly i old hold hpending
      subst hij
      rw [h.waiters, List.getElem?_set_self hlt]
      intro heq
      exact (h.told .invalidUsage (Option.some.inj heq)).1 rfl
  | drained result =>
    have hquiet := quiet_pending hreached.2.1 hold
    rw [hpending] at hquiet
    cases hquiet

theorem settled_turned {w w' : AvisoWatch σ κ φ ρ} {x : Waiter} (h : Turned w i x w') (hsettled : w.Settled) :
    w'.Settled := by
  rcases hsettled with hended | hpoisoned
  · exact .inl (h.stage ▸ hended)
  · exact .inr (h.poisoned hpoisoned)

theorem Sound.turned (hs : r.Sound) {core : AvisoWatch σ κ φ ρ} (hcore : core.Sound) {x : Waiter}
    (h : Turned r.core i x core) : ({ r with core := core } : Running σ κ φ ρ).Sound where
  core := hcore
  told := by
    intro result hmem hresult
    rw [h.waiters] at hmem
    rcases List.mem_or_eq_of_mem_set hmem with hmem | heq
    · exact settled_turned h (hs.told result hmem hresult)
    · exact (h.told result heq.symm).2
  finishing := by
    intro f hf
    obtain ⟨hfreed, hreached⟩ := hs.finishing f hf
    exact ⟨h.freed.trans hfreed, reached_turned h hreached⟩
  freed := fun hfreed => settled_turned h (hs.freed hfreed)
  disposed := h.freed.trans hs.disposed
  once := hs.once
  leaked := fun hleaked => h.kept _ (hs.leaked hleaked)
  thrown := by
    intro hthrown
    rw [h.stage]
    exact hs.thrown hthrown
  reported := fun outcome hmem => hs.reported outcome (h.ends outcome hmem)

theorem settled_moved {w w' : AvisoWatch σ κ φ ρ} (h : AvisoWatch.Moved t w w') (hsettled : w.Settled) :
    w'.Settled := by
  obtain ⟨-, -, -, hpoisoned, hrunning, -⟩ := AvisoWatch.moved_keeps h
  rcases hsettled with hended | hsame
  · rw [hrunning] at hended
    cases hended
  · exact .inr (hpoisoned.trans hsame)

theorem reached_moved {w w' : AvisoWatch σ κ φ ρ} (h : AvisoWatch.Moved t w w') {stage : FinishStage}
    (hreached : stage.Reached w) : stage.Reached w' := by
  obtain ⟨hwaiters, hnotifying, -, -, -, -, hkept⟩ := AvisoWatch.moved_keeps h
  cases stage with
  | stopping => exact ⟨hnotifying.trans hreached.1, fun waiter hw => hreached.2 waiter (hwaiters ▸ hw)⟩
  | stopped => exact ⟨hnotifying.trans hreached.1, fun waiter hw => hreached.2 waiter (hwaiters ▸ hw)⟩
  | waiting i =>
    obtain ⟨hzero, hlt, honly, hvalid⟩ := hreached
    exact ⟨hnotifying.trans hzero, by rwa [hwaiters], by rwa [hwaiters], by rwa [hwaiters]⟩
  | drained result =>
    obtain ⟨hzero, hquiet, hsettled, hrefused⟩ := hreached
    exact ⟨hnotifying.trans hzero, fun waiter hw => hquiet waiter (hwaiters ▸ hw),
      fun hresult => settled_moved h (hsettled hresult), fun hresult => hkept _ (hrefused hresult)⟩

/-- The task takes a step; the error of the handler and what was reported come from outside. -/
theorem Sound.moved (hs : r.Sound) {core : AvisoWatch σ κ φ ρ} {error : Option OutcomeError}
    {reported : Option (Option OutcomeError)} (hcore : core.Sound) (h : AvisoWatch.Moved t r.core core)
    (hthrown : error.isSome = true → core.stage.past = true)
    (hreported : ∀ outcome, .endStarted outcome ∈ core.trace → reported = some (endError error outcome)) :
    ({ r with core := core, callbackError := error, reported := reported } : Running σ κ φ ρ).Sound := by
  obtain ⟨hwaiters, -, hfreed, -, -, -, hkept⟩ := AvisoWatch.moved_keeps h
  exact {
    core := hcore
    told := by
      intro result hmem hresult
      exact settled_moved h (hs.told result (hwaiters ▸ hmem) hresult)
    finishing := by
      intro f hf
      obtain ⟨hlive, hreached⟩ := hs.finishing f hf
      exact ⟨hfreed.trans hlive, reached_moved h hreached⟩
    freed := fun hgone => settled_moved h (hs.freed hgone)
    disposed := hfreed.trans hs.disposed
    once := hs.once
    leaked := fun hleaked => hkept _ (hs.leaked hleaked)
    thrown := hthrown
    reported := hreported }

/-- Before `on_end` is called its mark is not in the trace. -/
theorem Sound.before_end (hs : r.Sound) (hphase : r.core.stage.phase.ends = 0) (outcome : AvisoOutcome) :
    .endStarted outcome ∉ r.core.trace := by
  intro hmem
  have hcount := countP_isEnd hs.core.allowed
  rw [hs.core.phase, hphase] at hcount
  have hpos := List.countP_pos_iff.mpr ⟨_, hmem, (rfl : Mark.isEnd (.endStarted outcome) = true)⟩
  rw [hcount] at hpos
  cases hpos

/-- A step of the task that is not the call of `on_end` leaves its mark out. -/
theorem ends_moved {w w' : AvisoWatch σ κ φ ρ} (h : AvisoWatch.Moved t w w')
    (hstage : ∀ outcome, w.stage ≠ .ending outcome) {outcome : AvisoOutcome} (hmem : .endStarted outcome ∈ w'.trace) :
    .endStarted outcome ∈ w.trace := by
  obtain ⟨stage, m, permit, hmove, -, rfl⟩ := h
  rcases List.mem_append.mp hmem with hold | hnew
  · exact hold
  · generalize hsource : w.stage = source at hmove
    cases hmove with
    | ends => exact absurd hsource (hstage _)
    | _ => simp at hnew

theorem Sound.advanced (hs : r.Sound) {core : AvisoWatch σ κ φ ρ} {event : WatchEvent σ}
    (h : AvisoWatch.step t r.core event = some core) (htask : event.isTask = true)
    (hmoved : AvisoWatch.Moved t r.core core) :
    ({ r with core := core, reported := r.endReport event } : Running σ κ φ ρ).Sound := by
  refine hs.moved (hs.core.step h) hmoved ?_ ?_
  · intro hthrown
    exact (AvisoWatch.moved_keeps hmoved).2.2.2.2.2.1 (hs.thrown hthrown)
  · intro outcome hmem
    by_cases hending : ∃ outcome', r.core.stage = .ending outcome'
    · obtain ⟨outcome', hstage⟩ := hending
      have hbefore := hs.before_end (by rw [hstage]; rfl) outcome
      cases event with
      | advance =>
        simp only [AvisoWatch.step, AvisoWatch.advance, hstage, Option.some.injEq] at h
        subst h
        rcases List.mem_append.mp hmem with hmem | hmem
        · exact absurd hmem hbefore
        · obtain rfl : outcome = outcome' := by simpa using hmem
          simp [endReport, hstage]
      | opened result => simp [AvisoWatch.step, hstage] at h
      | replied reply => simp [AvisoWatch.step, AvisoWatch.reply, hstage] at h
      | closed => simp [AvisoWatch.step, hstage] at h
      | endReturned => simp [AvisoWatch.step, hstage] at h
      | fault => simp [AvisoWatch.step, hstage] at h
      | _ => cases htask
    · have hstage : ∀ outcome', r.core.stage ≠ .ending outcome' := fun outcome' heq => hending ⟨outcome', heq⟩
      have hreport : r.endReport event = r.reported := by
        unfold endReport
        split
        · split
          · exact absurd ‹_› (hstage _)
          · rfl
        · rfl
      rw [hreport]
      exact hs.reported outcome (ends_moved hmoved hstage hmem)

/-- A step of an object at the handle: the task, and what is settled, stay as they are. -/
theorem Sound.used (hs : r.Sound) {core : AvisoWatch σ κ φ ρ} {finishing : Option Finish} (hcore : core.Sound)
    (hstage : core.stage = r.core.stage) (hpoisoned : core.poisoned = r.core.poisoned)
    (hfreed : core.freed = r.core.freed)
    (htold : ∀ result, .returned result ∈ core.waiters → .returned result ∈ r.core.waiters ∨ result = .invalidUsage)
    (hkept : ∀ m ∈ r.core.trace, m ∈ core.trace)
    (hends : ∀ outcome, .endStarted outcome ∈ core.trace → .endStarted outcome ∈ r.core.trace)
    (hfinish : ∀ f, finishing = some f → core.freed = false ∧ f.stage.Reached core) :
    ({ r with core := core, finishing := finishing } : Running σ κ φ ρ).Sound := by
  have hsettled : r.core.Settled → core.Settled := fun hsettled => hsettled.imp (hstage ▸ ·) (hpoisoned ▸ ·)
  exact {
    core := hcore
    told := by
      intro result hmem hresult
      rcases htold result hmem with hmem | hinvalid
      · exact hsettled (hs.told result hmem hresult)
      · exact absurd hinvalid hresult
    finishing := hfinish
    freed := fun hgone => hsettled (hs.freed hgone)
    disposed := hfreed.trans hs.disposed
    once := hs.once
    leaked := fun hleaked => hkept _ (hs.leaked hleaked)
    thrown := by
      intro hthrown
      rw [hstage]
      exact hs.thrown hthrown
    reported := fun outcome hmem => hs.reported outcome (hends outcome hmem) }

theorem Sound.raised (hs : r.Sound) {core : AvisoWatch σ κ φ ρ} {finishing : Option Finish}
    (h : AvisoWatch.step t r.core .raise = some core)
    (hfinish : ∀ f, finishing = some f → core.freed = false ∧ f.stage.Reached core) :
    ({ r with core := core, finishing := finishing } : Running σ κ φ ρ).Sound := by
  have hcore := hs.core.step h
  simp only [AvisoWatch.step] at h
  split at h
  · cases h
  · cases h
    exact hs.used hcore rfl rfl rfl (fun _ hmem => .inl hmem) (fun _ hm => List.mem_append_left _ hm)
      (fun _ hmem => by simpa using hmem) hfinish

theorem Sound.notified (hs : r.Sound) {core : AvisoWatch σ κ φ ρ} {finishing : Option Finish}
    (h : AvisoWatch.step t r.core .notify = some core)
    (hfinish : ∀ f, finishing = some f → core.freed = false ∧ f.stage.Reached core) :
    ({ r with core := core, finishing := finishing } : Running σ κ φ ρ).Sound := by
  have hcore := hs.core.step h
  simp only [AvisoWatch.step] at h
  split at h
  · cases h
  · cases h
    exact hs.used hcore rfl rfl rfl (fun _ hmem => .inl hmem) (fun _ hm => hm) (fun _ hmem => hmem) hfinish

theorem Sound.awaited (hs : r.Sound) {core : AvisoWatch σ κ φ ρ} {finishing : Option Finish} {onRuntime : Bool}
    (h : AvisoWatch.step t r.core (.wait onRuntime) = some core)
    (hfinish : ∀ f, finishing = some f → core.freed = false ∧ f.stage.Reached core) :
    ({ r with core := core, finishing := finishing } : Running σ κ φ ρ).Sound := by
  have hcore := hs.core.step h
  simp only [AvisoWatch.step] at h
  split at h
  · cases h
  · split at h
    · cases h
      refine hs.used hcore rfl rfl rfl ?_ (fun _ hm => List.mem_append_left _ hm) (fun _ hmem => by simpa using hmem)
        hfinish
      intro result hmem
      rcases List.mem_append.mp hmem with hmem | hmem
      · exact .inl hmem
      · exact .inr (by simpa using hmem)
    · cases h
      refine hs.used hcore rfl rfl rfl ?_ (fun _ hm => hm) (fun _ hmem => hmem) hfinish
      intro result hmem
      rcases List.mem_append.mp hmem with hmem | hmem
      · exact .inl hmem
      · simp at hmem

/-- The wait of a `finish`: it is refused at once, or it is the only one that waits. -/
theorem reached_awaited {w core : AvisoWatch σ κ φ ρ} {onRuntime : Bool} (hlive : w.freed = false)
    (hreached : FinishStage.stopped.Reached w) (h : AvisoWatch.step t w (.wait onRuntime) = some core) :
    core.freed = false ∧
      (if onRuntime then FinishStage.drained .invalidUsage else .waiting w.waiters.length).Reached core := by
  obtain ⟨hzero, hquiet⟩ := hreached
  simp only [AvisoWatch.step, hlive, Bool.false_eq_true, if_false] at h
  cases onRuntime with
  | true =>
    cases h
    refine ⟨rfl, hzero, ?_, fun hne => absurd rfl hne, fun _ => by simp⟩
    intro waiter hmem
    rcases List.mem_append.mp hmem with hmem | hmem
    · exact hquiet waiter hmem
    · rw [List.mem_singleton.mp hmem]
      rfl
  | false =>
    cases h
    refine ⟨rfl, hzero, by simp, ?_, by simp⟩
    intro j waiter hj hpending
    rcases Nat.lt_or_ge j w.waiters.length with hlt | hge
    · rw [List.getElem?_append_left hlt] at hj
      rw [quiet_pending hquiet hj] at hpending
      cases hpending
    · have hlen := (List.getElem?_eq_some_iff.mp hj).1
      simp only [List.length_append, List.length_singleton] at hlen
      omega

theorem Sound.proceed (hs : r.Sound) (hf : r.finishing = some f) (h : r.proceed t f = some r') : r'.Sound := by
  obtain ⟨hlive, hreached⟩ := hs.finishing f hf
  unfold Running.proceed at h
  cases hstage : f.stage with
  | stopping =>
    rw [hstage] at hreached
    simp only [hstage] at h
    obtain ⟨core, hcore, rfl⟩ := Option.map_eq_some_iff.mp h
    refine hs.notified hcore ?_
    intro f' hf'
    cases hf'
    simp only [AvisoWatch.step, hreached.1] at hcore
    cases hcore
    exact ⟨hlive, rfl, hreached.2⟩
  | stopped =>
    rw [hstage] at hreached
    simp only [hstage] at h
    obtain ⟨core, hcore, rfl⟩ := Option.map_eq_some_iff.mp h
    refine hs.awaited hcore ?_
    intro f' hf'
    cases hf'
    exact reached_awaited hlive hreached hcore
  | waiting i =>
    rw [hstage] at hreached
    simp only [hstage] at h
    split at h
    · rename_i result hresult
      cases h
      obtain ⟨hzero, -, honly, hvalid⟩ := hreached
      have hne : result ≠ .invalidUsage := fun heq => hvalid (heq ▸ hresult)
      refine hs.used hs.core rfl rfl rfl (fun _ hmem => .inl hmem) (fun _ hm => hm) (fun _ hmem => hmem) ?_
      intro f' hf'
      cases hf'
      refine ⟨hlive, hzero, ?_, hs.told result (List.mem_of_getElem? hresult), fun heq => absurd heq hne⟩
      intro waiter hmem
      obtain ⟨j, hj⟩ := List.mem_iff_getElem?.mp hmem
      cases hpending : waiter.pending with
      | false => rfl
      | true =>
        have hij := honly j waiter hj hpending
        subst hij
        rw [hresult] at hj
        cases hj
        cases hpending
    · cases h
  | drained result =>
    rw [hstage] at hreached
    simp only [hstage] at h
    obtain ⟨core, hfree, rfl⟩ := Option.map_eq_some_iff.mp h
    have hcore := hs.core.step hfree
    obtain ⟨-, -, hsettled, hrefused⟩ := hreached
    simp only [AvisoWatch.step] at hfree
    split at hfree
    · cases hfree
      exact {
        core := hcore
        told := hs.told
        finishing := by simp
        freed := fun hgone => hsettled (by simpa using hgone)
        disposed := by cases result <;> rfl
        once := by cases result <;> rfl
        leaked := fun hleaked => List.mem_append_left _ (hrefused (by simpa using hleaked))
        thrown := hs.thrown
        reported := fun outcome hmem => hs.reported outcome (by simpa using hmem) }
    · cases hfree

/-- An exception is kept before the loop ends, and `on_end` comes after that. -/
theorem Sound.handled (hs : r.Sound) (hdeclines : Declines t) {answer : Except (Option Text) Bool}
    (h : r.step t callback (.handled answer) = some r') : r'.Sound := by
  simp only [Running.step] at h
  cases hstage : r.core.stage with
  | calling l call =>
    simp only [hstage] at h
    obtain ⟨core, hcore, rfl⟩ := Option.map_eq_some_iff.mp h
    cases answer with
    | ok go =>
      have hmoved : AvisoWatch.Moved t r.core core := AvisoWatch.reply_moved hcore
      have hreplied : AvisoWatch.step t r.core (.replied (.answered go)) = some core := hcore
      refine hs.moved (hs.core.step hreplied) hmoved ?_ ?_
      · intro hthrown
        exact (AvisoWatch.moved_keeps hmoved).2.2.2.2.2.1 (hs.thrown hthrown)
      · intro outcome hmem
        exact hs.reported outcome (ends_moved hmoved (by simp [hstage]) hmem)
    | error what =>
      have hmoved : AvisoWatch.Moved t r.core core := AvisoWatch.reply_moved hcore
      have hreplied : AvisoWatch.step t r.core (.replied (.answered false)) = some core := hcore
      refine hs.moved (hs.core.step hreplied) hmoved ?_ ?_
      · intro _
        obtain ⟨reason, hreason⟩ := hdeclines l.kept call
        simp only [reply, AvisoWatch.step, AvisoWatch.reply, hstage, hreason, Option.some.injEq] at hcore
        subst hcore
        rfl
      · intro outcome hmem
        have hold := ends_moved hmoved (by simp [hstage]) hmem
        exact absurd hold (hs.before_end (by rw [hstage]; rfl) outcome)
  | _ => simp [hstage] at h

/-- A watch by itself moves its task, or lets a call of wait go on. -/
theorem own_cases {w w' : AvisoWatch σ κ φ ρ} {event : WatchEvent σ} (hs : w.Sound) (hown : isCore event = true)
    (h : AvisoWatch.step t w event = some w') :
    event.isTask = true ∧ AvisoWatch.Moved t w w' ∨ event.isTask = false ∧ ∃ i x, Turned w i x w' := by
  rcases AvisoWatch.step_cases h with ⟨htask, hmoved⟩ | ⟨hother, -⟩
  · exact .inl ⟨htask, hmoved⟩
  · refine .inr ⟨hother, ?_⟩
    cases event with
    | lock i => exact ⟨i, AvisoWatch.lock_turned hs h⟩
    | join i => exact ⟨i, AvisoWatch.join_turned h⟩
    | unwind i => exact ⟨i, AvisoWatch.unwind_turned h⟩
    | raise => cases hown
    | notify => cases hown
    | wait onRuntime => cases hown
    | free => cases hown
    | _ => cases hother

theorem Sound.own (hs : r.Sound) {event : WatchEvent σ} (h : r.step t callback (.core event) = some r') :
    r'.Sound := by
  simp only [Running.step] at h
  split at h
  · rename_i hown
    obtain ⟨core, hcore, rfl⟩ := Option.map_eq_some_iff.mp h
    rcases own_cases hs.core hown hcore with ⟨htask, hmoved⟩ | ⟨hother, i, x, hturned⟩
    · exact hs.advanced hcore htask hmoved
    · have hkept : r.endReport event = r.reported := by
        cases event with
        | advance => cases hother
        | _ => rfl
      rw [hkept]
      exact hs.turned (hs.core.step hcore) hturned
  · cases h

theorem Sound.use (hs : r.Sound) {event : WatchEvent σ} (h : r.step t callback (.use event) = some r') : r'.Sound := by
  simp only [Running.step] at h
  split at h
  · rename_i huse
    obtain ⟨huse, hidle⟩ := huse
    obtain ⟨core, hcore, rfl⟩ := Option.map_eq_some_iff.mp h
    have hfinish : ∀ f, r.finishing = some f → core.freed = false ∧ f.stage.Reached core := by simp [hidle]
    cases event with
    | raise => exact hs.raised hcore hfinish
    | notify => exact hs.notified hcore hfinish
    | wait onRuntime => exact hs.awaited hcore hfinish
    | _ => cases huse
  · cases h

theorem quiet_of_not_mem {w : AvisoWatch σ κ φ ρ} (hlocking : .locking ∉ w.waiters) (hjoining : .joining ∉ w.waiters) :
    Quiet w := by
  intro waiter hmem
  cases waiter with
  | locking => exact absurd hmem hlocking
  | joining => exact absurd hmem hjoining
  | returned result => rfl

theorem Sound.finish (hs : r.Sound) {o : Nat} {other : Option Nat} {onRuntime : Bool}
    (h : r.step t callback (.finish o other onRuntime) = some r') :
    r'.Sound := by
  simp only [Running.step] at h
  split at h
  · rename_i hfree
    obtain ⟨-, hzero, hlocking, hjoining⟩ := hfree
    obtain ⟨core, hcore, rfl⟩ := Option.map_eq_some_iff.mp h
    refine hs.raised hcore ?_
    intro f hf
    cases hf
    simp only [AvisoWatch.step] at hcore
    split at hcore
    · cases hcore
    · cases hcore
      refine ⟨Bool.eq_false_iff.mpr ‹_›, ?_, quiet_of_not_mem hlocking hjoining⟩
      exact congrArg (· + 1) hzero
  · cases h

theorem Sound.step (hs : r.Sound) (hdeclines : Declines t) {event : RunningEvent σ}
    (h : r.step t callback event = some r') : r'.Sound := by
  cases event with
  | core event => exact hs.own h
  | handled answer => exact hs.handled hdeclines h
  | use event => exact hs.use h
  | finish o other onRuntime => exact hs.finish h
  | proceed =>
    obtain ⟨f, hf, hnext⟩ := Option.bind_eq_some_iff.mp h
    exact hs.proceed hf hnext

/-- A `finish` goes on, unless it waits for its wait to return. -/
theorem Sound.goes_on (hs : r.Sound) (t : Task σ ι κ φ ρ) {f : Finish} (hf : r.finishing = some f)
    (hreturned : ∀ i, f.stage = .waiting i → ∃ result, r.core.waiters[i]? = some (.returned result)) :
    (r.proceed t f).isSome = true := by
  obtain ⟨hlive, hreached⟩ := hs.finishing f hf
  unfold Running.proceed
  cases hstage : f.stage with
  | stopping =>
    rw [hstage] at hreached
    simp [AvisoWatch.step, hreached.1]
  | stopped =>
    cases hruntime : f.onRuntime <;> simp [AvisoWatch.step, hlive]
  | waiting i =>
    obtain ⟨result, hresult⟩ := hreturned i hstage
    simp [hresult]
  | drained result =>
    rw [hstage] at hreached
    obtain ⟨hzero, hquiet, -, -⟩ := hreached
    have hlocking : .locking ∉ r.core.waiters := fun hmem => by cases hquiet _ hmem
    have hjoining : .joining ∉ r.core.waiters := fun hmem => by cases hquiet _ hmem
    simp [AvisoWatch.step, hlive, hzero, hlocking, hjoining]

/-- What a step of a watch does to its handle and to the `finish` it is in: one begins, goes on
for the same objects, or frees the handle. -/
inductive Kept (r : Running σ κ φ ρ) (event : RunningEvent σ) (r' : Running σ κ φ ρ) : Prop where
  | same (hfreed : r'.core.freed = r.core.freed) (hfinishing : r'.finishing = r.finishing)
  | begins (o : Nat) (other : Option Nat) (onRuntime : Bool) (hevent : event = .finish o other onRuntime)
      (hfreed : r'.core.freed = r.core.freed) (hfinishing : r'.finishing = some ⟨o, other, onRuntime, .stopping⟩)
  | goesOn (f : Finish) (stage : FinishStage) (hf : r.finishing = some f) (hfreed : r'.core.freed = r.core.freed)
      (hfinishing : r'.finishing = some { f with stage := stage })
  | frees (f : Finish) (hevent : event = .proceed) (hf : r.drained = some f)
      (hfreed : r'.core.freed = true) (hfinishing : r'.finishing = none)

theorem freed_of_own {w w' : AvisoWatch σ κ φ ρ} {event : WatchEvent σ} (hs : w.Sound) (hown : isCore event = true)
    (h : AvisoWatch.step t w event = some w') : w'.freed = w.freed := by
  rcases own_cases hs hown h with ⟨-, hmoved⟩ | ⟨-, i, x, hturned⟩
  · exact (AvisoWatch.moved_keeps hmoved).2.2.1
  · exact hturned.freed

theorem freed_of_use {w w' : AvisoWatch σ κ φ ρ} {event : WatchEvent σ} (huse : isUse event = true)
    (h : AvisoWatch.step t w event = some w') : w'.freed = w.freed := by
  cases event with
  | raise =>
    simp only [AvisoWatch.step] at h
    split at h
    · cases h
    · cases h
      rfl
  | notify =>
    simp only [AvisoWatch.step] at h
    split at h
    · cases h
    · cases h
      rfl
  | wait onRuntime =>
    simp only [AvisoWatch.step] at h
    split at h
    · cases h
    · split at h
      · cases h
        rfl
      · cases h
        rfl
  | _ => cases huse

theorem proceed_frees {f : Finish} {result : WaitResult} (hstage : f.stage = .drained result)
    (h : r.proceed t f = some r') : r'.core.freed = true ∧ r'.finishing = none := by
  unfold Running.proceed at h
  simp only [hstage] at h
  obtain ⟨core, hcore, rfl⟩ := Option.map_eq_some_iff.mp h
  simp only [AvisoWatch.step] at hcore
  split at hcore
  · cases hcore
    exact ⟨rfl, rfl⟩
  · cases hcore

theorem drained_spec {f : Finish} (h : r.drained = some f) :
    r.finishing = some f ∧ ∃ result, f.stage = .drained result := by
  obtain ⟨f', hf, hstage⟩ := Option.bind_eq_some_iff.mp h
  split at hstage
  · rename_i result hdrained
    cases hstage
    exact ⟨hf, result, hdrained⟩
  · cases hstage

theorem proceed_kept {f : Finish} (hf : r.finishing = some f) (h : r.proceed t f = some r') : Kept r .proceed r' := by
  unfold Running.proceed at h
  cases hstage : f.stage with
  | stopping =>
    simp only [hstage] at h
    obtain ⟨core, hcore, rfl⟩ := Option.map_eq_some_iff.mp h
    exact .goesOn f _ hf (freed_of_use rfl hcore) rfl
  | stopped =>
    simp only [hstage] at h
    obtain ⟨core, hcore, rfl⟩ := Option.map_eq_some_iff.mp h
    exact .goesOn f _ hf (freed_of_use rfl hcore) rfl
  | waiting i =>
    simp only [hstage] at h
    split at h
    · cases h
      exact .goesOn f _ hf rfl rfl
    · cases h
  | drained result =>
    obtain ⟨hfreed, hfinishing⟩ := proceed_frees hstage h
    exact .frees f rfl (by simp [Running.drained, hf, hstage]) hfreed hfinishing

theorem Sound.kept (hs : r.Sound) {event : RunningEvent σ} (h : r.step t callback event = some r') :
    Kept r event r' := by
  cases event with
  | core event =>
    simp only [Running.step] at h
    split at h
    · rename_i hown
      obtain ⟨core, hcore, rfl⟩ := Option.map_eq_some_iff.mp h
      exact .same (freed_of_own hs.core hown hcore) rfl
    · cases h
  | handled answer =>
    simp only [Running.step] at h
    split at h
    · rename_i l call hstage
      obtain ⟨core, hcore, rfl⟩ := Option.map_eq_some_iff.mp h
      cases answer with
      | ok go => exact .same (AvisoWatch.moved_keeps (AvisoWatch.reply_moved hcore)).2.2.1 rfl
      | error what => exact .same (AvisoWatch.moved_keeps (AvisoWatch.reply_moved hcore)).2.2.1 rfl
    · cases h
  | use event =>
    simp only [Running.step] at h
    split at h
    · rename_i huse
      obtain ⟨core, hcore, rfl⟩ := Option.map_eq_some_iff.mp h
      exact .same (freed_of_use huse.1 hcore) rfl
    · cases h
  | finish o other onRuntime =>
    simp only [Running.step] at h
    split at h
    · obtain ⟨core, hcore, rfl⟩ := Option.map_eq_some_iff.mp h
      exact .begins o other onRuntime rfl (freed_of_use rfl hcore) rfl
    · cases h
  | proceed =>
    obtain ⟨f, hf, hnext⟩ := Option.bind_eq_some_iff.mp h
    exact proceed_kept hf hnext

/-- A step of a watch is at most one at its handle. -/
theorem core_step {event : RunningEvent σ} (h : r.step t callback event = some r') :
    r'.core = r.core ∨ ∃ e, AvisoWatch.step t r.core e = some r'.core := by
  cases event with
  | core event =>
    simp only [Running.step] at h
    split at h
    · obtain ⟨core, hcore, rfl⟩ := Option.map_eq_some_iff.mp h
      exact .inr ⟨_, hcore⟩
    · cases h
  | handled answer =>
    simp only [Running.step] at h
    split at h
    · obtain ⟨core, hcore, rfl⟩ := Option.map_eq_some_iff.mp h
      cases answer with
      | ok go => exact .inr ⟨_, hcore⟩
      | error what => exact .inr ⟨_, hcore⟩
    · cases h
  | use event =>
    simp only [Running.step] at h
    split at h
    · obtain ⟨core, hcore, rfl⟩ := Option.map_eq_some_iff.mp h
      exact .inr ⟨_, hcore⟩
    · cases h
  | finish o other onRuntime =>
    simp only [Running.step] at h
    split at h
    · obtain ⟨core, hcore, rfl⟩ := Option.map_eq_some_iff.mp h
      exact .inr ⟨_, hcore⟩
    · cases h
  | proceed =>
    obtain ⟨f, -, hnext⟩ := Option.bind_eq_some_iff.mp h
    unfold Running.proceed at hnext
    split at hnext
    · obtain ⟨core, hcore, rfl⟩ := Option.map_eq_some_iff.mp hnext
      exact .inr ⟨_, hcore⟩
    · obtain ⟨core, hcore, rfl⟩ := Option.map_eq_some_iff.mp hnext
      exact .inr ⟨_, hcore⟩
    · split at hnext
      · cases hnext
        exact .inl rfl
      · cases hnext
    · obtain ⟨core, hcore, rfl⟩ := Option.map_eq_some_iff.mp hnext
      exact .inr ⟨_, hcore⟩

/-- The error of the handler is set where it throws, and nowhere else. -/
theorem step_error {event : RunningEvent σ} (h : r.step t callback event = some r') :
    (∃ what l call, event = .handled (.error what) ∧ r.core.stage = .calling l call ∧
      AvisoWatch.step t r.core (.replied (.answered false)) = some r'.core ∧
      r'.callbackError = some (recordCallbackError (callback call) what)) ∨
    (∀ what, event ≠ .handled (.error what)) ∧ r'.callbackError = r.callbackError := by
  cases event with
  | core event =>
    simp only [Running.step] at h
    split at h
    · obtain ⟨core, -, heq⟩ := Option.map_eq_some_iff.mp h
      subst heq
      exact .inr ⟨by simp, rfl⟩
    · cases h
  | handled answer =>
    simp only [Running.step] at h
    split at h
    · rename_i l call hstage
      obtain ⟨core, hcore, heq⟩ := Option.map_eq_some_iff.mp h
      subst heq
      cases answer with
      | ok go => exact .inr ⟨by simp, rfl⟩
      | error what => exact .inl ⟨what, l, call, rfl, hstage, hcore, rfl⟩
    · cases h
  | use event =>
    simp only [Running.step] at h
    split at h
    · obtain ⟨core, -, heq⟩ := Option.map_eq_some_iff.mp h
      subst heq
      exact .inr ⟨by simp, rfl⟩
    · cases h
  | finish o other onRuntime =>
    simp only [Running.step] at h
    split at h
    · obtain ⟨core, -, heq⟩ := Option.map_eq_some_iff.mp h
      subst heq
      exact .inr ⟨by simp, rfl⟩
    · cases h
  | proceed =>
    refine .inr ⟨by simp, ?_⟩
    obtain ⟨f, -, hnext⟩ := Option.bind_eq_some_iff.mp h
    unfold Running.proceed at hnext
    split at hnext
    · obtain ⟨core, -, heq⟩ := Option.map_eq_some_iff.mp hnext
      subst heq
      rfl
    · obtain ⟨core, -, heq⟩ := Option.map_eq_some_iff.mp hnext
      subst heq
      rfl
    · split at hnext
      · cases hnext
        rfl
      · cases hnext
    · obtain ⟨core, -, heq⟩ := Option.map_eq_some_iff.mp hnext
      subst heq
      rfl

/-- The handler threw in `call` of `before`: the loop is over, no callback is started after it, and
its error stays to be what `on_end` is called with. -/
structure Stopped (before : Running σ κ φ ρ) (call : κ) (error : OutcomeError) (r : Running σ κ φ ρ) : Prop where
  past : r.core.stage.past = true
  kept : r.callbackError = some error
  last : ∃ later, r.core.trace = before.core.trace ++ .returned call (.answered false) :: later ∧
    ∀ other, .started other ∉ later

/-- A watch whose handler throws is stopped. -/
theorem stopped_of_thrown (hdeclines : Declines t) {what : Option Text} {l : Loop σ φ} {call : κ}
    (hstage : r.core.stage = .calling l call) (h : r.step t callback (.handled (.error what)) = some r') :
    Stopped r call (recordCallbackError (callback call) what) r' := by
  rcases step_error h with ⟨what', l', call', hevent, hstage', hreply, herror⟩ | ⟨hnot, -⟩
  · rw [hstage] at hstage'
    cases hstage'
    cases hevent
    obtain ⟨reason, hreason⟩ := hdeclines l.kept call
    simp only [AvisoWatch.step, AvisoWatch.reply, hstage, hreason, Option.some.injEq] at hreply
    refine ⟨?_, herror, [], ?_, by simp⟩
    · rw [← hreply]
      rfl
    · rw [← hreply]
      rfl
  · exact absurd rfl (hnot what)

theorem Stopped.step {before : Running σ κ φ ρ} {call : κ} {error : OutcomeError} (h : Stopped before call error r)
    {event : RunningEvent σ} (hs : r.step t callback event = some r') : Stopped before call error r' := by
  obtain ⟨later, htrace, hquiet⟩ := h.last
  have hkept : r'.callbackError = r.callbackError := by
    rcases step_error hs with ⟨what, l, other, -, hstage, -⟩ | ⟨-, hsame⟩
    · have hpast := h.past
      rw [hstage] at hpast
      cases hpast
    · exact hsame
  have hsilent : r'.core.stage.past = true ∧ Silent r.core r'.core := by
    rcases core_step hs with hsame | ⟨e, hcore⟩
    · rw [hsame]
      exact ⟨h.past, .refl _⟩
    · exact AvisoWatch.step_silent hcore h.past
  obtain ⟨hpast, more, hmore, hstill⟩ := hsilent
  refine ⟨hpast, hkept.trans h.kept, later ++ more, ?_, ?_⟩
  · rw [hmore, htrace, List.append_assoc, List.cons_append]
  · intro other hmem
    rcases List.mem_append.mp hmem with hmem | hmem
    · exact hquiet other hmem
    · exact hstill other hmem

/-- The watch at the handle is one the C interface can reach. -/
def FromSpawn (t : Task σ ι κ φ ρ) (r : Running σ κ φ ρ) : Prop :=
  ∃ built events, Lib.Machine.run (AvisoWatch.step t) (.spawn built) events = some r.core

theorem FromSpawn.step (h : FromSpawn t r) {event : RunningEvent σ} (hstep : r.step t callback event = some r') :
    FromSpawn t r' := by
  obtain ⟨built, events, hrun⟩ := h
  rcases core_step hstep with hsame | ⟨e, hcore⟩
  · exact ⟨built, events, by rw [hrun, hsame]⟩
  · exact ⟨built, events ++ [e], Lib.Machine.run_snoc hrun hcore⟩

/-- What is known of a watch of a program. -/
def Known (t : Task σ ι κ φ ρ) (r : Running σ κ φ ρ) : Prop := r.Sound ∧ r.FromSpawn t

theorem Known.step (h : r.Known t) (hdeclines : Declines t) {event : RunningEvent σ}
    (hstep : r.step t callback event = some r') : r'.Known t :=
  ⟨h.1.step hdeclines hstep, h.2.step hstep⟩

/-- What a watch of the facade promises. Its state is freed only when no callback can use it any
more, and is leaked only when a wait was refused; an exception of the handler ends the watch, and
is what `on_end` reports; and a `finish` is held up by nothing but its wait. -/
structure Lawful (t : Task σ ι κ φ ρ) (r : Running σ κ φ ρ) : Prop where
  reached : FromSpawn t r
  freed : r.stateFreed = true → r.core.stage.ended = true ∨ r.core.poisoned = true
  disposed : r.core.freed = (r.stateFreed || r.stateLeaked)
  once : (r.stateFreed && r.stateLeaked) = false
  leaked : r.stateLeaked = true → .waited .invalidUsage ∈ r.core.trace
  thrown : r.callbackError.isSome = true → r.core.stage.past = true
  reported : ∀ outcome, .endStarted outcome ∈ r.core.trace → r.reported = some (endError r.callbackError outcome)
  proceeds : ∀ f, r.finishing = some f →
    (∀ i, f.stage = .waiting i → ∃ result, r.core.waiters[i]? = some (.returned result)) → (r.proceed t f).isSome = true

theorem Known.lawful (h : r.Known t) : r.Lawful t where
  reached := h.2
  freed := h.1.freed
  disposed := h.1.disposed
  once := h.1.once
  leaked := h.1.leaked
  thrown := h.1.thrown
  reported := h.1.reported
  proceeds := fun _ hf hreturned => h.1.goes_on t hf hreturned

end Running

section Ownership

variable {t : Task σ ι κ φ ρ} {running : List (Running σ κ φ ρ)} {holds holds' : Nat → Option Nat} {c o : Nat}
  {r r' : Running σ κ φ ρ}

/-- Every watch that is not freed is held by one object, what an object holds is not freed, and a
`finish` is one of the object that holds its watch. -/
structure Owned (t : Task σ ι κ φ ρ) (running : List (Running σ κ φ ρ)) (holds : Nat → Option Nat) : Prop where
  known : ∀ (c : Nat) r, running[c]? = some r → r.Known t
  inUse : ∀ o c, holds o = some c → ∃ r, running[c]? = some r ∧ r.core.freed = false
  held : ∀ (c : Nat) r, running[c]? = some r → r.core.freed = false → ∃ o, holds o = some c
  single : ∀ o o' c, holds o = some c → holds o' = some c → o = o'
  finishing : ∀ (c : Nat) r f, running[c]? = some r → r.finishing = some f →
    holds f.object = some c ∧ f.other ≠ some f.object

namespace Owned

theorem set_cases {d : Nat} {x : Running σ κ φ ρ} (h : (running.set c r')[d]? = some x) :
    d = c ∧ x = r' ∨ d ≠ c ∧ running[d]? = some x := by
  rw [List.getElem?_set] at h
  split at h
  · rename_i heq
    split at h
    · cases h
      exact .inl ⟨heq.symm, rfl⟩
    · cases h
  · rename_i hne
    exact .inr ⟨fun heq => hne heq.symm, h⟩

theorem set_self (hr : running[c]? = some r) : (running.set c r')[c]? = some r' :=
  List.getElem?_set_self (List.getElem?_eq_some_iff.mp hr).1

theorem append_cases {d : Nat} {x : Running σ κ φ ρ} (h : (running ++ [r'])[d]? = some x) :
    d = running.length ∧ x = r' ∨ running[d]? = some x := by
  rcases Nat.lt_or_ge d running.length with hlt | hge
  · rw [List.getElem?_append_left hlt] at h
    exact .inr h
  · rw [List.getElem?_append_right hge] at h
    have hlen := (List.getElem?_eq_some_iff.mp h).1
    simp only [List.length_singleton] at hlen
    obtain rfl : d = running.length := by omega
    rw [Nat.sub_self] at h
    cases h
    exact .inl ⟨rfl, rfl⟩

theorem empty : Owned t ([] : List (Running σ κ φ ρ)) fun o => (([] : List (Option Nat))[o]?).join where
  known := by simp
  inUse := by simp
  held := by simp
  single := by simp
  finishing := by simp

/-- A new watch is held by the new object. -/
theorem watch (h : Owned t running holds) (hfresh : holds o = none) (built : Except AvisoOutcome Unit)
    (hholds : ∀ x, holds' x = if x = o then some running.length else holds x) :
    Owned t (running ++ [.start built]) holds' := by
  have hlt {x d : Nat} (hx : holds x = some d) : d < running.length := by
    obtain ⟨r, hr, -⟩ := h.inUse x d hx
    exact (List.getElem?_eq_some_iff.mp hr).1
  have hold {x d : Nat} (hx : holds x = some d) : holds' x = some d := by
    rw [hholds, if_neg, hx]
    intro heq
    subst heq
    rw [hfresh] at hx
    cases hx
  refine ⟨?_, ?_, ?_, ?_, ?_⟩
  · intro d x hx
    rcases append_cases hx with ⟨-, rfl⟩ | hx
    · exact ⟨.start built, built, [], rfl⟩
    · exact h.known d x hx
  · intro x d hx
    rw [hholds] at hx
    split at hx
    · cases hx
      exact ⟨.start built, by simp, rfl⟩
    · obtain ⟨r, hr, hlive⟩ := h.inUse x d hx
      exact ⟨r, by rw [List.getElem?_append_left (hlt hx), hr], hlive⟩
  · intro d x hx hlive
    rcases append_cases hx with ⟨rfl, -⟩ | hx
    · exact ⟨o, by rw [hholds, if_pos rfl]⟩
    · obtain ⟨y, hy⟩ := h.held d x hx hlive
      exact ⟨y, hold hy⟩
  · intro x y d hx hy
    rw [hholds] at hx hy
    split at hx
    · cases hx
      split at hy
      · omega
      · have := hlt hy
        omega
    · split at hy
      · cases hy
        have := hlt hx
        omega
      · exact h.single x y d hx hy
  · intro d x f hx hf
    rcases append_cases hx with ⟨-, rfl⟩ | hx
    · cases hf
    · obtain ⟨hobject, hother⟩ := h.finishing d x f hx hf
      exact ⟨hold hobject, hother⟩

/-- A step of a watch that does not free it. -/
theorem turned (h : Owned t running holds) (hr : running[c]? = some r) (hknown : r'.Known t)
    (hfreed : r'.core.freed = r.core.freed)
    (hfinishing : ∀ f, r'.finishing = some f → holds f.object = some c ∧ f.other ≠ some f.object) :
    Owned t (running.set c r') holds where
  known := by
    intro d x hx
    rcases set_cases hx with ⟨-, rfl⟩ | ⟨-, hx⟩
    · exact hknown
    · exact h.known d x hx
  inUse := by
    intro x d hx
    obtain ⟨s, hd, hlive⟩ := h.inUse x d hx
    by_cases hdc : d = c
    · subst hdc
      rw [hr] at hd
      cases hd
      exact ⟨r', set_self hr, hfreed.trans hlive⟩
    · exact ⟨s, by rw [List.getElem?_set_ne (Ne.symm hdc), hd], hlive⟩
  held := by
    intro d x hx hlive
    rcases set_cases hx with ⟨rfl, rfl⟩ | ⟨-, hx⟩
    · exact h.held d r hr (hfreed.symm.trans hlive)
    · exact h.held d x hx hlive
  single := h.single
  finishing := by
    intro d x f hx hf
    rcases set_cases hx with ⟨rfl, rfl⟩ | ⟨-, hx⟩
    · exact hfinishing f hf
    · exact h.finishing d x f hx hf

/-- The object that holds a watch releases it as it is freed. -/
theorem dropped (h : Owned t running holds) (hr : running[c]? = some r) (hknown : r'.Known t)
    (hfreed : r'.core.freed = true) (hfinishing : r'.finishing = none) (hold : holds o = some c)
    (hholds : ∀ x, holds' x = if x = o then none else holds x) : Owned t (running.set c r') holds' := by
  have hother {x d : Nat} (hx : holds x = some d) (hdc : d ≠ c) : holds' x = some d := by
    rw [hholds, if_neg, hx]
    intro heq
    subst heq
    rw [hold] at hx
    cases hx
    exact hdc rfl
  have hback {x d : Nat} (hx : holds' x = some d) : holds x = some d ∧ d ≠ c := by
    rw [hholds] at hx
    split at hx
    · cases hx
    · rename_i hne
      refine ⟨hx, ?_⟩
      intro heq
      subst heq
      exact hne (h.single x o d hx hold)
  refine ⟨?_, ?_, ?_, ?_, ?_⟩
  · intro d x hx
    rcases set_cases hx with ⟨-, rfl⟩ | ⟨-, hx⟩
    · exact hknown
    · exact h.known d x hx
  · intro x d hx
    obtain ⟨hx, hdc⟩ := hback hx
    obtain ⟨s, hd, hlive⟩ := h.inUse x d hx
    exact ⟨s, by rw [List.getElem?_set_ne (Ne.symm hdc), hd], hlive⟩
  · intro d x hx hlive
    rcases set_cases hx with ⟨-, rfl⟩ | ⟨hdc, hx⟩
    · rw [hfreed] at hlive
      cases hlive
    · obtain ⟨y, hy⟩ := h.held d x hx hlive
      exact ⟨y, hother hy hdc⟩
  · intro x y d hx hy
    exact h.single x y d (hback hx).1 (hback hy).1
  · intro d x f hx hf
    rcases set_cases hx with ⟨-, rfl⟩ | ⟨hdc, hx⟩
    · rw [hfinishing] at hf
      cases hf
    · obtain ⟨hobject, hne⟩ := h.finishing d x f hx hf
      exact ⟨hother hobject hdc, hne⟩

/-- An object that holds nothing takes over what another holds. -/
theorem transferred (h : Owned t running holds) (hempty : holds o = none) {other : Option Nat} (hne : other ≠ some o)
    (hstill : ∀ o' c r, other = some o' → holds o' = some c → running[c]? = some r → r.finishing = none)
    (hholds : ∀ x, holds' x = if x = o then other.bind holds else if other = some x then none else holds x) :
    Owned t running holds' := by
  have hback {x d : Nat} (hx : holds' x = some d) :
      x = o ∧ (∃ o', other = some o' ∧ holds o' = some d) ∨ other ≠ some x ∧ holds x = some d := by
    rw [hholds] at hx
    split at hx
    · rename_i heq
      exact .inl ⟨heq, Option.bind_eq_some_iff.mp hx⟩
    · split at hx
      · cases hx
      · exact .inr ⟨‹_›, hx⟩
  have hstays {x d : Nat} (hx : holds x = some d) (hother : other ≠ some x) : holds' x = some d := by
    have hxo : x ≠ o := by
      intro heq
      subst heq
      rw [hempty] at hx
      cases hx
    rw [hholds, if_neg hxo, if_neg hother, hx]
  refine ⟨h.known, ?_, ?_, ?_, ?_⟩
  · intro x d hx
    rcases hback hx with ⟨-, o', -, ho'⟩ | ⟨-, hx⟩
    · exact h.inUse o' d ho'
    · exact h.inUse x d hx
  · intro d x hx hlive
    obtain ⟨y, hy⟩ := h.held d x hx hlive
    by_cases hother : other = some y
    · exact ⟨o, by rw [hholds, if_pos rfl, hother, Option.bind_some, hy]⟩
    · exact ⟨y, hstays hy hother⟩
  · intro x y d hx hy
    rcases hback hx with ⟨hxo, o', ho', hheld⟩ | ⟨hx', hx⟩
    · rcases hback hy with ⟨hyo, -⟩ | ⟨hy', hy⟩
      · rw [hxo, hyo]
      · exact absurd (h.single o' y d hheld hy ▸ ho') hy'
    · rcases hback hy with ⟨-, o', ho', hheld⟩ | ⟨-, hy⟩
      · exact absurd (h.single o' x d hheld hx ▸ ho') hx'
      · exact h.single x y d hx hy
  · intro d x f hx hf
    obtain ⟨hobject, hdiffers⟩ := h.finishing d x f hx hf
    refine ⟨hstays hobject ?_, hdiffers⟩
    intro hother
    have hnone := hstill f.object d x hother hobject hx
    rw [hnone] at hf
    cases hf

end Owned
end Ownership

namespace Program

variable {t : Task σ ι κ φ ρ} {callback : κ → Text} {p p' : Program σ κ φ ρ}

def Sound (t : Task σ ι κ φ ρ) (p : Program σ κ φ ρ) : Prop := Owned t p.running p.holds

theorem join_set (objects : List (Option Nat)) (o : Nat) (held : Option Nat) (x : Nat) :
    (objects.set o held)[x]?.join = if x = o ∧ o < objects.length then held else objects[x]?.join := by
  rw [List.getElem?_set]
  by_cases hxo : o = x
  · subst hxo
    by_cases hlt : o < objects.length
    · simp [hlt]
    · simp [hlt]
  · simp [hxo, Ne.symm hxo]

theorem join_append (objects : List (Option Nat)) (held : Option Nat) (x : Nat) :
    (objects ++ [held])[x]?.join = if x = objects.length then held else objects[x]?.join := by
  rcases Nat.lt_trichotomy x objects.length with hlt | rfl | hgt
  · rw [List.getElem?_append_left hlt, if_neg (Nat.ne_of_lt hlt)]
  · simp
  · rw [if_neg (Nat.ne_of_gt hgt), List.getElem?_eq_none (Nat.le_of_lt hgt),
      List.getElem?_eq_none (by rw [List.length_append, List.length_singleton]; omega)]

theorem holds_lt {o c : Nat} (h : p.holds o = some c) : o < p.objects.length := by
  exact (List.getElem?_eq_some_iff.mp (Option.join_eq_some_iff.mp h)).1

theorem holds_length : p.holds p.objects.length = none := by
  simp [holds]

/-- What each object holds after one took over what another held. -/
theorem join_takeOver {objects : List (Option Nat)} {o : Nat} {other : Option Nat} (ho : o < objects.length)
    (hne : other ≠ some o) (x : Nat) :
    (takeOver objects o other)[x]?.join =
      if x = o then other.bind (fun o' => objects[o']?.join)
      else if other = some x then none else objects[x]?.join := by
  cases other with
  | none => simp [takeOver, join_set, ho]
  | some o' =>
    simp only [takeOver, join_set, List.length_set, ho, and_true, Option.bind_some, Option.some.injEq]
    split
    · rfl
    · by_cases hx : x = o'
      · subst hx
        by_cases hlt : x < objects.length
        · simp [hlt]
        · simp [hlt]
      · simp [hx, Ne.symm hx]

theorem still_spec (h : p.still o = true) {c : Nat} {r : Running σ κ φ ρ} (hold : p.holds o = some c)
    (hr : p.running[c]? = some r) : r.finishing = none := by
  simpa [still, hold, hr] using h

/-- A watch takes a step that is not the end of its `finish`. -/
theorem Sound.turn (hs : p.Sound t) (hdeclines : Declines t) {c : Nat} {event : RunningEvent σ}
    (hfinish : ∀ o other onRuntime, event = .finish o other onRuntime → p.holds o = some c ∧ other ≠ some o)
    (hdrained : event = .proceed → (p.running[c]?.bind (·.drained)) = none)
    (h : p.turn t callback c event = some p') : p'.Sound t := by
  obtain ⟨r, hr, hturn⟩ := Option.bind_eq_some_iff.mp h
  obtain ⟨r', hstep, rfl⟩ := Option.map_eq_some_iff.mp hturn
  have hknown := hs.known c r hr
  cases hknown.1.kept hstep with
  | same hfreed hfinishing =>
    refine Owned.turned hs hr (hknown.step hdeclines hstep) hfreed ?_
    intro f hf
    exact hs.finishing c r f hr (hfinishing ▸ hf)
  | begins o other onRuntime hevent hfreed hfinishing =>
    refine Owned.turned hs hr (hknown.step hdeclines hstep) hfreed ?_
    intro f hf
    rw [hfinishing] at hf
    cases hf
    exact hfinish o other onRuntime hevent
  | goesOn f stage hf hfreed hfinishing =>
    refine Owned.turned hs hr (hknown.step hdeclines hstep) hfreed ?_
    intro f' hf'
    rw [hfinishing] at hf'
    cases hf'
    exact hs.finishing c r f hr hf
  | frees f hevent hf hfreed hfinishing =>
    have hnone := hdrained hevent
    rw [hr, Option.bind_some, hf] at hnone
    cases hnone

/-- A `finish` that has waited frees the watch, and its object takes over what it was assigned. -/
theorem Sound.release (hs : p.Sound t) (hdeclines : Declines t) {c : Nat}
    (h : Program.step t callback p (.release c) = some p') : p'.Sound t := by
  simp only [Program.step] at h
  obtain ⟨f, hdrained, h⟩ := Option.bind_eq_some_iff.mp h
  split at h
  · rename_i hstill
    obtain ⟨mid, hturn, rfl⟩ := Option.map_eq_some_iff.mp h
    obtain ⟨r, hr, hturn⟩ := Option.bind_eq_some_iff.mp hturn
    obtain ⟨r', hstep, rfl⟩ := Option.map_eq_some_iff.mp hturn
    rw [hr, Option.bind_some] at hdrained
    have hknown := hs.known c r hr
    obtain ⟨hf, result, hstage⟩ := Running.drained_spec hdrained
    obtain ⟨f', hf', hnext⟩ := Option.bind_eq_some_iff.mp hstep
    obtain rfl := Option.some.inj (hf.symm.trans hf')
    obtain ⟨hfreed, hfinishing⟩ := Running.proceed_frees hstage hnext
    obtain ⟨hobject, hne⟩ := hs.finishing c r f hr hf
    have hapart {o' : Nat} (hother : f.other = some o') : o' ≠ f.object := by
      intro heq
      subst heq
      exact hne hother
    have hempty := Owned.dropped hs hr (hknown.step hdeclines hstep) hfreed hfinishing hobject fun _ => rfl
    refine hempty.transferred (if_pos rfl) hne ?_ ?_
    · intro o' d x hother hold hx
      rw [if_neg (hapart hother)] at hold
      rcases Owned.set_cases hx with ⟨-, rfl⟩ | ⟨-, hx⟩
      · exact hfinishing
      · rw [hother] at hstill
        exact still_spec hstill hold hx
    · intro x
      refine (join_takeOver (holds_lt hobject) hne x).trans ?_
      by_cases hx : x = f.object
      · rw [if_pos hx, if_pos hx]
        cases hother : f.other with
        | none => rfl
        | some o' =>
          simp [hapart hother, holds]
      · rw [if_neg hx, if_neg hx, if_neg hx]
        rfl
  · cases h

theorem Sound.step (hs : p.Sound t) (hdeclines : Declines t) {event : ProgramEvent σ}
    (h : Program.step t callback p event = some p') : p'.Sound t := by
  cases event with
  | watch built =>
    cases h
    refine Owned.watch hs holds_length built ?_
    exact join_append p.objects _
  | move o =>
    simp only [Program.step] at h
    split at h
    · rename_i hmove
      obtain ⟨hlt, hstill⟩ := hmove
      cases h
      have hne : some o ≠ some p.objects.length := fun heq => Nat.ne_of_lt hlt (Option.some.inj heq)
      refine Owned.transferred hs holds_length hne ?_ ?_
      · intro o' c r hother hold hr
        cases hother
        exact still_spec hstill hold hr
      · intro x
        refine (join_append (p.objects.set o none) (p.holds o) x).trans ?_
        rw [List.length_set, join_set]
        by_cases hx : x = o
        · subst hx
          simp [hlt]
        · simp [hx, Ne.symm hx, holds]
    · cases h
  | stop o =>
    simp only [Program.step] at h
    split at h
    · exact hs.turn hdeclines (fun _ _ _ heq => by cases heq) (fun heq => by cases heq) h
    · cases h
      exact hs
  | wait o onRuntime =>
    simp only [Program.step] at h
    split at h
    · exact hs.turn hdeclines (fun _ _ _ heq => by cases heq) (fun heq => by cases heq) h
    · cases h
      exact hs
  | finish o other onRuntime =>
    simp only [Program.step] at h
    split at h
    · cases h
      exact hs
    · rename_i hne
      split at h
      · rename_i c hold
        refine hs.turn hdeclines ?_ (fun heq => by cases heq) h
        intro o' other' onRuntime' heq
        cases heq
        exact ⟨hold, hne⟩
      · rename_i hempty
        split at h
        · rename_i hguard
          obtain ⟨hlt, hstill⟩ := hguard
          cases h
          refine Owned.transferred hs hempty hne ?_ (join_takeOver hlt hne)
          intro o' c r hother hold hr
          rw [hother] at hstill
          exact still_spec hstill hold hr
        · cases h
  | on c event =>
    simp only [Program.step] at h
    split at h
    · rename_i hown
      obtain ⟨hown, hdrained⟩ := hown
      refine hs.turn hdeclines ?_ (fun _ => hdrained) h
      intro o other onRuntime heq
      subst heq
      cases hown
    · cases h
  | release c => exact hs.release hdeclines h

/-- What a step of a program does to its watches: a new one, none, or a step of one; the answers of
the handlers come in as they are. -/
theorem step_running {event : ProgramEvent σ} (h : Program.step t callback p event = some p') :
    (∃ built, p'.running = p.running ++ [.start built] ∧ ∀ c answer, event ≠ .on c (.handled answer)) ∨
    (p'.running = p.running ∧ ∀ c answer, event ≠ .on c (.handled answer)) ∨
    ∃ c e r r', p.running[c]? = some r ∧ r.step t callback e = some r' ∧ p'.running = p.running.set c r' ∧
      ∀ d answer, event = .on d (.handled answer) ↔ d = c ∧ e = .handled answer := by
  have hturn {q : Program σ κ φ ρ} {c : Nat} {e : RunningEvent σ} (hq : p.turn t callback c e = some q) :
      ∃ r r', p.running[c]? = some r ∧ r.step t callback e = some r' ∧ q.running = p.running.set c r' := by
    obtain ⟨r, hr, hstep⟩ := Option.bind_eq_some_iff.mp hq
    obtain ⟨r', hnext, heq⟩ := Option.map_eq_some_iff.mp hstep
    subst heq
    exact ⟨r, r', hr, hnext, rfl⟩
  cases event with
  | watch built =>
    cases h
    exact .inl ⟨built, rfl, by simp⟩
  | move o =>
    simp only [Program.step] at h
    split at h
    · cases h
      exact .inr (.inl ⟨rfl, by simp⟩)
    · cases h
  | stop o =>
    simp only [Program.step] at h
    split at h
    · obtain ⟨r, r', hr, hnext, hrunning⟩ := hturn h
      exact .inr (.inr ⟨_, _, r, r', hr, hnext, hrunning, by simp⟩)
    · cases h
      exact .inr (.inl ⟨rfl, by simp⟩)
  | wait o onRuntime =>
    simp only [Program.step] at h
    split at h
    · obtain ⟨r, r', hr, hnext, hrunning⟩ := hturn h
      exact .inr (.inr ⟨_, _, r, r', hr, hnext, hrunning, by simp⟩)
    · cases h
      exact .inr (.inl ⟨rfl, by simp⟩)
  | finish o other onRuntime =>
    simp only [Program.step] at h
    split at h
    · cases h
      exact .inr (.inl ⟨rfl, by simp⟩)
    · split at h
      · obtain ⟨r, r', hr, hnext, hrunning⟩ := hturn h
        exact .inr (.inr ⟨_, _, r, r', hr, hnext, hrunning, by simp⟩)
      · split at h
        · cases h
          exact .inr (.inl ⟨rfl, by simp⟩)
        · cases h
  | on c e =>
    simp only [Program.step] at h
    split at h
    · obtain ⟨r, r', hr, hnext, hrunning⟩ := hturn h
      refine .inr (.inr ⟨c, e, r, r', hr, hnext, hrunning, ?_⟩)
      intro d answer
      simp only [ProgramEvent.on.injEq]
      exact and_congr_left fun _ => eq_comm
    · cases h
  | release c =>
    simp only [Program.step] at h
    obtain ⟨f, -, h⟩ := Option.bind_eq_some_iff.mp h
    split at h
    · obtain ⟨mid, hmid, heq⟩ := Option.map_eq_some_iff.mp h
      subst heq
      obtain ⟨r, r', hr, hnext, hrunning⟩ := hturn hmid
      exact .inr (.inr ⟨_, _, r, r', hr, hnext, hrunning, by simp⟩)
    · cases h

/-- In these events the handler of the watch `c` throws `what` in `call`, out of the state `before`. -/
def Throws (t : Task σ ι κ φ ρ) (callback : κ → Text) (events : List (ProgramEvent σ)) (c : Nat) (call : κ)
    (what : Option Text) (before : Running σ κ φ ρ) : Prop :=
  ∃ earlier later q l, events = earlier ++ .on c (.handled (.error what)) :: later ∧
    Lib.Machine.run (Program.step t callback) ⟨[], []⟩ earlier = some q ∧ q.running[c]? = some before ∧
    before.core.stage = .calling l call

theorem Throws.longer {events : List (ProgramEvent σ)} {c : Nat} {call : κ} {what : Option Text}
    {before : Running σ κ φ ρ} (h : Throws t callback events c call what before) (event : ProgramEvent σ) :
    Throws t callback (events ++ [event]) c call what before := by
  obtain ⟨earlier, later, q, l, heq, hrun, hbefore⟩ := h
  subst heq
  exact ⟨earlier, later ++ [event], q, l, by simp, hrun, hbefore⟩

/-- A watch that was stopped is so for good. -/
theorem stopped_step {c : Nat} {call : κ} {error : OutcomeError} {before : Running σ κ φ ρ} {event : ProgramEvent σ}
    (hs : ∃ r, p.running[c]? = some r ∧ Running.Stopped before call error r)
    (h : Program.step t callback p event = some p') :
    ∃ r, p'.running[c]? = some r ∧ Running.Stopped before call error r := by
  obtain ⟨r, hr, hstopped⟩ := hs
  rcases step_running h with ⟨built, hrunning, -⟩ | ⟨hrunning, -⟩ | ⟨d, e, x, x', hx, hnext, hrunning, -⟩
  · refine ⟨r, ?_, hstopped⟩
    rw [hrunning, List.getElem?_append_left (List.getElem?_eq_some_iff.mp hr).1, hr]
  · exact ⟨r, by rw [hrunning, hr], hstopped⟩
  · by_cases hdc : d = c
    · subst hdc
      rw [hr] at hx
      cases hx
      exact ⟨x', by rw [hrunning]; exact Owned.set_self hr, hstopped.step hnext⟩
    · exact ⟨r, by rw [hrunning, List.getElem?_set_ne hdc, hr], hstopped⟩

/-- A watch whose handler throws is stopped from then on. -/
theorem stopped_of_run (hdeclines : Declines t) {earlier later : List (ProgramEvent σ)} {c : Nat} {what : Option Text}
    (h : Lib.Machine.run (Program.step t callback) ⟨[], []⟩ (earlier ++ .on c (.handled (.error what)) :: later) = some p) :
    ∃ q before l call r, Lib.Machine.run (Program.step t callback) ⟨[], []⟩ earlier = some q ∧
      q.running[c]? = some before ∧ before.core.stage = .calling l call ∧ p.running[c]? = some r ∧
      Running.Stopped before call (recordCallbackError (callback call) what) r := by
  obtain ⟨q, hearlier, hrest⟩ := Lib.Machine.run_append h
  obtain ⟨next, hthrow, hlater⟩ := Lib.Machine.run_cons hrest
  rcases step_running hthrow with ⟨-, -, hnot⟩ | ⟨-, hnot⟩ | ⟨d, e, before, r', hbefore, hnext, hrunning, hanswer⟩
  · exact absurd rfl (hnot c _)
  · exact absurd rfl (hnot c _)
  · obtain ⟨hcd, heq⟩ := (hanswer c _).mp rfl
    subst hcd
    subst heq
    rcases Running.step_error hnext with ⟨what', l, call, hevent, hstage, -⟩ | ⟨hnot, -⟩
    · cases hevent
      have hstopped := Running.stopped_of_thrown hdeclines hstage hnext
      obtain ⟨r, hr, hlast⟩ := Lib.Machine.run_invariant (fun _ _ _ hs he => stopped_step hs he) hlater
        ⟨r', by rw [hrunning]; exact Owned.set_self hbefore, hstopped⟩
      exact ⟨q, before, l, call, r, hearlier, hbefore, hstage, hr, hlast⟩
    · exact absurd rfl (hnot what)

/-- The errors kept of the handlers are all of their throwing. -/
def Caught (t : Task σ ι κ φ ρ) (callback : κ → Text) (events : List (ProgramEvent σ)) (p : Program σ κ φ ρ) : Prop :=
  ∀ (c : Nat) r error, p.running[c]? = some r → r.callbackError = some error →
    ∃ call what before, Throws t callback events c call what before ∧ error = recordCallbackError (callback call) what

theorem Caught.step {events : List (ProgramEvent σ)} (hs : Caught t callback events p)
    (hrun : Lib.Machine.run (Program.step t callback) ⟨[], []⟩ events = some p) {event : ProgramEvent σ}
    (h : Program.step t callback p event = some p') : Caught t callback (events ++ [event]) p' := by
  have hold {c : Nat} {r : Running σ κ φ ρ} {error : OutcomeError} (hr : p.running[c]? = some r)
      (herror : r.callbackError = some error) : ∃ call what before,
        Throws t callback (events ++ [event]) c call what before ∧ error = recordCallbackError (callback call) what := by
    obtain ⟨call, what, before, hthrows, heq⟩ := hs c r error hr herror
    exact ⟨call, what, before, hthrows.longer event, heq⟩
  intro c r error hr herror
  rcases step_running h with ⟨built, hrunning, -⟩ | ⟨hrunning, -⟩ | ⟨d, e, x, x', hx, hnext, hrunning, hanswer⟩
  · rw [hrunning] at hr
    rcases Owned.append_cases hr with ⟨-, heq⟩ | hr
    · subst heq
      cases herror
    · exact hold hr herror
  · rw [hrunning] at hr
    exact hold hr herror
  · rw [hrunning] at hr
    rcases Owned.set_cases hr with ⟨hcd, heq⟩ | ⟨-, hr⟩
    · subst hcd
      subst heq
      rcases Running.step_error hnext with ⟨what, l, call, hevent, hstage, -, hset⟩ | ⟨-, hkept⟩
      · rw [herror] at hset
        refine ⟨call, what, x, ⟨events, [], p, l, ?_, hrun, hx, hstage⟩, Option.some.inj hset⟩
        rw [(hanswer c _).mpr ⟨rfl, hevent⟩]
      · exact hold hx (hkept.symm.trans herror)
    · exact hold hr herror

/-- What the facade promises of a whole program: no watch is lost and none is freed while an object
holds it, for each has at most one object, and that one until it is freed; and a watch is stopped by
what its handler throws, which is all that it reports in place of its outcome. -/
structure Lawful (t : Task σ ι κ φ ρ) (callback : κ → Text) (events : List (ProgramEvent σ)) (p : Program σ κ φ ρ) :
    Prop where
  watches : ∀ (c : Nat) r, p.running[c]? = some r → r.Lawful t
  held : ∀ (c : Nat) r, p.running[c]? = some r → (r.core.freed = false ↔ ∃ o, p.holds o = some c)
  single : ∀ o o' c, p.holds o = some c → p.holds o' = some c → o = o'
  thrown : ∀ earlier later c what, events = earlier ++ .on c (.handled (.error what)) :: later →
    ∃ call before r, Throws t callback events c call what before ∧ p.running[c]? = some r ∧
      Running.Stopped before call (recordCallbackError (callback call) what) r ∧
      ∀ outcome, .endStarted outcome ∈ r.core.trace → r.reported = some (some (recordCallbackError (callback call) what))
  caught : Caught t callback events p

/-- However the objects are moved, assigned, used and destroyed, and whatever the handlers throw. -/
theorem facade_law (t : Task σ ι κ φ ρ) (callback : κ → Text) (hdeclines : Declines t)
    (events : List (ProgramEvent σ)) (h : Lib.Machine.run (Program.step t callback) ⟨[], []⟩ events = some p) :
    p.Lawful t callback events := by
  have hs : p.Sound t := Lib.Machine.run_invariant (fun _ _ _ hs he => Sound.step hs hdeclines he) h Owned.empty
  have hcaught : Lib.Machine.run (Program.step t callback) ⟨[], []⟩ ([] ++ events) = some p ∧
      Caught t callback ([] ++ events) p := by
    refine Lib.Machine.run_traced
      (I := fun seen q => Lib.Machine.run (Program.step t callback) ⟨[], []⟩ seen = some q ∧ Caught t callback seen q)
      ?_ h ⟨rfl, by simp [Caught]⟩
    intro seen q event q' hq he
    exact ⟨Lib.Machine.run_snoc hq.1 he, hq.2.step hq.1 he⟩
  refine ⟨fun c r hr => (hs.known c r hr).lawful, ?_, hs.single, ?_, hcaught.2⟩
  · intro c r hr
    refine ⟨hs.held c r hr, ?_⟩
    intro hheld
    obtain ⟨o, ho⟩ := hheld
    obtain ⟨r', hr', hlive⟩ := hs.inUse o c ho
    rw [hr] at hr'
    cases hr'
    exact hlive
  · intro earlier later c what heq
    subst heq
    obtain ⟨q, before, l, call, r, hearlier, hbefore, hstage, hr, hstopped⟩ := stopped_of_run hdeclines h
    refine ⟨call, before, r, ⟨earlier, later, q, l, rfl, hearlier, hbefore, hstage⟩, hr, hstopped, ?_⟩
    intro outcome hended
    rw [(hs.known c r hr).1.reported outcome hended, hstopped.kept]
    rfl

/-- The handler throws while the object its watch was moved to is assigned a second watch. -/
def assignedEvents : List (ProgramEvent Nat) :=
  [.watch (.ok ()), .move 0, .on 0 (.core (.opened (.ok 0))), .on 0 (.core .advance), .on 0 (.core .advance),
    .on 0 (.core .advance), .watch (.ok ()), .finish 1 (some 2) false, .on 0 (.handled (.error (some "full".toList))),
    .on 0 .proceed, .on 0 .proceed, .on 0 (.core (.lock 0)), .on 0 (.core .closed), .on 0 (.core .advance),
    .on 0 (.core .endReturned), .on 0 (.core (.join 0)), .on 0 .proceed, .release 0]

theorem facade_law_sample :
    ∃ p, Lib.Machine.run (Program.step AvisoWatch.numbersTask watchCallback) ⟨[], []⟩ assignedEvents = some p ∧
      p.objects = [none, some 1, none] ∧ p.running.map (·.stateFreed) = [true, false] ∧
      p.running.map (·.reported) =
        [some (some (recordCallbackError "on_notification".toList (some "full".toList))), none] ∧
      p.Lawful AvisoWatch.numbersTask watchCallback assignedEvents :=
  ⟨_, rfl, rfl, rfl, rfl,
    facade_law AvisoWatch.numbersTask watchCallback (runWatch_declines _ _) assignedEvents rfl⟩

end Program
end Facade
end Aviso.Ffi
